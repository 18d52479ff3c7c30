import Conform.Proofs.Decimals
import Conform.Proofs.Equality
import Conform.Yaml.Data

/-!
# Key texts — keys of documents that give way to their texts

Scalars of any type may be keys of a document.  Two that have one text are equal, except that a
string can be the text of a scalar of another type (`Data.eqv_of_keyText?`).  So a document becomes a
value with the same entries in the same order if and only if there are no such two keys in one of
its mappings (`Data.toValue_mirrors`).
-/

namespace Conform.Yaml.Data

open Number

/-! ## 1. Texts of scalars -/

abbrev numberText (n : Number) : String := n.toExponentText Plain.numberStyle

theorem ofDecimalText?_numberText (n : Number) :
    ofDecimalText? (numberText n).toList = if n.isFinite then some n else none := by
  cases n with
  | nan => rfl
  | infinite negative => cases negative <;> rfl
  | finite negative m => exact ofDecimalText?_toExponentText _ negative m

/-- Numbers are told apart by their texts. -/
theorem numberText_injective {a b : Number} (h : numberText a = numberText b) : a = b := by
  have hread : (if a.isFinite then some a else none) = if b.isFinite then some b else none := by
    rw [← ofDecimalText?_numberText, ← ofDecimalText?_numberText, h]
  by_cases hfinite : a.isFinite = true ∨ b.isFinite = true
  · split at hread <;> split at hread <;> simp_all
  · -- What is not finite is written as a word.
    cases a with
    | finite => exact absurd (.inl rfl) hfinite
    | nan =>
      cases b with
      | finite => exact absurd (.inr rfl) hfinite
      | nan => rfl
      | infinite negative => cases negative <;> exact absurd h (by decide)
    | infinite negative =>
      cases b with
      | finite => exact absurd (.inr rfl) hfinite
      | nan => cases negative <;> exact absurd h (by decide)
      | infinite negative' =>
        cases negative <;> cases negative' <;> first | rfl | exact absurd h (by decide)

/-- A negative exponent puts a point into positional notation. -/
theorem positional_point {digits : List Char} {e : Int} (h : e < 0) : '.' ∈ positional digits e := by
  unfold positional
  dsimp only
  rw [if_neg (by omega)]
  split <;> simp

theorem scientific_mark (plus : Bool) (digits : List Char) (e : Int) :
    'e' ∈ scientific plus digits e := by
  unfold scientific
  simp

/-- A number is not written as an integer. -/
theorem exists_mark (n : Number) : ∃ c ∈ (numberText n).toList, c = '.' ∨ c = 'e' := by
  cases n with
  | nan => exact ⟨'.', by decide, .inl rfl⟩
  | infinite negative => cases negative <;> exact ⟨'.', by decide, .inl rfl⟩
  | finite negative m =>
    unfold numberText toExponentText
    dsimp only
    split
    · exact ⟨'.', by simp, .inl rfl⟩
    · simp only [String.toList_append, String.toList_ofList, List.mem_append]
      split
      · refine ⟨'.', .inr ?_, .inl rfl⟩
        split
        · simp
        · rename_i he
          rw [List.append_nil]
          exact positional_point (by omega)
      · exact ⟨'e', .inr (scientific_mark _ _ _), .inr rfl⟩

/-- An integer is read from its text. -/
theorem intOfText?_toString (i : Int) : intOfText? (toString i).toList = some i := by
  have hspells := spells_toDigits (by decide : 1 < 10) i.natAbs
  have hread := radixNat?_of_spells (by decide) Nat.toDigits_ne_nil hspells
  rw [toList_intText]
  split
  · have hsign : splitSign (Nat.toDigits 10 i.natAbs) = (false, Nat.toDigits 10 i.natAbs) :=
      splitSign_append .none fun c hc =>
        ne_sign_of_digit (isDecimalDigit_of_spells hspells c (List.mem_of_head? hc))
    unfold intOfText?
    rw [hsign]
    dsimp only
    rw [hread]
    exact congrArg some (Int.natAbs_of_nonneg ‹_›)
  · have hvalue : -(i.natAbs : Int) = i := by omega
    unfold intOfText?
    rw [show splitSign ('-' :: Nat.toDigits 10 i.natAbs) = (true, Nat.toDigits 10 i.natAbs) from rfl]
    dsimp only
    rw [hread]
    exact congrArg some hvalue

theorem intText_mem (i : Int) : ∀ c ∈ (toString i).toList, isDecimalDigit c = true ∨ c = '-' := by
  have hdigits := isDecimalDigit_of_spells (spells_toDigits (by decide) i.natAbs)
  rw [toList_intText]
  split
  · exact fun c hc => .inl (hdigits c hc)
  · exact List.forall_mem_cons.mpr ⟨.inr rfl, fun c hc => .inl (hdigits c hc)⟩

/-- No number has the text of an integer: it has a point, an exponent or no digits. -/
theorem intText_ne_numberText (i : Int) (n : Number) : toString i ≠ numberText n := by
  intro h
  obtain ⟨c, hc, hmark⟩ := exists_mark n
  rcases intText_mem i c (h ▸ hc) with hdigit | rfl
  · rcases hmark with rfl | rfl <;> exact absurd hdigit (by decide)
  · exact absurd hmark (by decide)

theorem boolText_ne_intText (b : Bool) (i : Int) : toString b ≠ toString i := by
  intro h
  have hletter : ∃ c ∈ (toString b).toList, isDecimalDigit c = false ∧ c ≠ '-' := by
    cases b
    · exact ⟨'f', by decide, by decide⟩
    · exact ⟨'t', by decide, by decide⟩
  obtain ⟨c, hc, hdigit, hsign⟩ := hletter
  rcases intText_mem i c (h ▸ hc) with hdigit' | hsign'
  · rw [hdigit] at hdigit'
    cases hdigit'
  · exact hsign hsign'

/-- No number has the text of a truth value. -/
theorem boolText_ne_numberText (b : Bool) (n : Number) : toString b ≠ numberText n := by
  intro h
  -- The text of a finite number is read as a number, and no truth value is.
  have hread : ofDecimalText? (toString b).toList = none := by cases b <;> rfl
  rw [h, ofDecimalText?_numberText] at hread
  cases n with
  | finite => cases hread
  | nan => cases b <;> exact absurd h (by decide)
  | infinite negative => cases b <;> cases negative <;> exact absurd h (by decide)

/-! ## 2. Keys with one text -/

variable {a b d e : Data} {v : Value} {pairs : List (Data × Data)} {entries : Entries Value}
  {text : String}

def IsString (d : Data) : Prop := ∃ s, d = .string s

theorem eqvFloat_self (n : Number) : eqvFloat n n = true := by
  unfold eqvFloat
  by_cases hfinite : n.isFinite = true
  · rw [Number.eqv_self hfinite]
    rfl
  · cases n with
    | finite => exact absurd rfl hfinite
    | nan => rfl
    | infinite negative => cases negative <;> rfl

/-- Two keys with one text are equal, unless just one of them is a string. -/
theorem eqv_of_keyText? (ha : a.keyText? = some text) (hb : b.keyText? = some text)
    (hstring : a.IsString ↔ b.IsString) : a.eqv b = true := by
  -- Texts of different kinds differ, but for strings, which both keys are or neither.
  cases a with
  | string s =>
    obtain ⟨s', rfl⟩ := hstring.mp ⟨s, rfl⟩
    cases ha
    cases hb
    exact beq_self_eq_true _
  | bool x =>
    cases ha
    cases b with
    | bool y =>
      cases x <;> cases y <;> first | rfl | exact absurd hb (by decide)
    | integer i => exact absurd (Option.some.inj hb).symm (boolText_ne_intText x i)
    | float n => exact absurd (Option.some.inj hb).symm (boolText_ne_numberText x n)
    | string s => exact nomatch hstring.mpr ⟨s, rfl⟩
    | _ => cases hb
  | integer i =>
    cases ha
    cases b with
    | bool y => exact absurd (Option.some.inj hb) (boolText_ne_intText y i)
    | integer j =>
      have hread := intOfText?_toString j
      rw [Option.some.inj hb, intOfText?_toString] at hread
      exact beq_iff_eq.mpr (Option.some.inj hread)
    | float n => exact absurd (Option.some.inj hb).symm (intText_ne_numberText i n)
    | string s => exact nomatch hstring.mpr ⟨s, rfl⟩
    | _ => cases hb
  | float n =>
    cases ha
    cases b with
    | bool y => exact absurd (Option.some.inj hb) (boolText_ne_numberText y n)
    | integer j => exact absurd (Option.some.inj hb) (intText_ne_numberText j n)
    | float m =>
      obtain rfl := numberText_injective (Option.some.inj hb)
      exact eqvFloat_self m
    | string s => exact nomatch hstring.mpr ⟨s, rfl⟩
    | _ => cases hb
  | _ => cases ha

/-! ## 3. Trees of data -/

/-- A part of a tree that becomes a part of its value. -/
inductive Within : Data → Data → Prop
  | self (d : Data) : Within d d
  | item {d e : Data} {items : List Data} (mem : e ∈ items) (within : Within d e) :
      Within d (.sequence items)
  | value {d : Data} {pair : Data × Data} {pairs : List (Data × Data)} (mem : pair ∈ pairs)
      (within : Within d pair.2) : Within d (.mapping pairs)
  | content {d content : Data} {tag : String} (within : Within d content) :
      Within d (.tagged tag content)

/-- No mapping in the tree has two equal keys. -/
def WellKeyed (d : Data) : Prop :=
  ∀ pairs, (mapping pairs).Within d → pairs.Pairwise fun p q => q.1.eqv p.1 = false

theorem Within.trans (h : Within d e) {root : Data} (h' : Within e root) : Within d root := by
  induction h' with
  | self => exact h
  | item mem _ ih => exact .item mem ih
  | value mem _ ih => exact .value mem ih
  | content _ ih => exact .content ih

/-- Parts of a tree without equal keys have none either. -/
theorem WellKeyed.within (h : d.WellKeyed) (hw : e.Within d) : e.WellKeyed :=
  fun pairs hpairs => h pairs (hpairs.trans hw)

/-- A string and another scalar with the text of that string are keys of one mapping in the tree. -/
def Clashes (d : Data) : Prop :=
  ∃ pairs, (mapping pairs).Within d ∧ ∃ p ∈ pairs, ∃ q ∈ pairs,
    p.1.IsString ∧ ¬q.1.IsString ∧ p.1.keyText? = q.1.keyText?

theorem Clashes.within (h : e.Clashes) (hw : e.Within d) : d.Clashes := by
  obtain ⟨pairs, hpairs, hclash⟩ := h
  exact ⟨pairs, hpairs.trans hw, hclash⟩

mutual

/-- A value with the items and the entries of a tree in their places, the entries under the texts of
their keys. -/
inductive Mirrors : Data → Value → Prop
  | null : Mirrors .null .null
  | bool (b : Bool) : Mirrors (.bool b) (.bool b)
  | integer (i : Int) : Mirrors (.integer i) (.number (.ofInt i))
  | float (n : Number) : Mirrors (.float n) (.number n)
  | string (s : String) : Mirrors (.string s) (.string s)
  | sequence {items : List Data} {values : List Value} (mirrored : ItemsMirror items values) :
      Mirrors (.sequence items) (.list values)
  | mapping {pairs : List (Data × Data)} {entries : Entries Value}
      (mirrored : PairsMirror pairs entries) : Mirrors (.mapping pairs) (.map entries)
  | tagged {tag : String} {content : Data} {v : Value} (mirrored : Mirrors content v) :
      Mirrors (.tagged tag content) v

inductive ItemsMirror : List Data → List Value → Prop
  | nil : ItemsMirror [] []
  | cons {d : Data} {v : Value} {items : List Data} {values : List Value}
      (first : Mirrors d v) (rest : ItemsMirror items values) :
      ItemsMirror (d :: items) (v :: values)

inductive PairsMirror : List (Data × Data) → Entries Value → Prop
  | nil : PairsMirror [] []
  | cons {key d : Data} {text : String} {v : Value} {pairs : List (Data × Data)}
      {entries : Entries Value} (named : key.keyText? = some text) (first : Mirrors d v)
      (rest : PairsMirror pairs entries) :
      PairsMirror ((key, d) :: pairs) ((text, v) :: entries)

end

/-! ## 4. Conversion -/

theorem toValue_sequence {items : List Data} (h : (sequence items).toValue = .ok v) :
    ∃ values, toValues items = .ok values ∧ v = .list values :=
  map_eq_ok h

/-- A mapping becomes one of the texts of its keys, the last value for each. -/
theorem toValue_mapping (h : (mapping pairs).toValue = .ok v) :
    ∃ entries, toPairs pairs = .ok entries ∧ v = .map (Entries.ofList entries) :=
  map_eq_ok h

theorem toValues_cons {items : List Data} {values : List Value}
    (h : toValues (d :: items) = .ok values) :
    ∃ v rest, d.toValue = .ok v ∧ toValues items = .ok rest ∧ values = v :: rest := by
  unfold toValues at h
  obtain ⟨v, hv, h⟩ := bind_eq_ok h
  obtain ⟨rest, hrest, h⟩ := bind_eq_ok h
  cases h
  exact ⟨v, rest, hv, hrest, rfl⟩

/-- A pair becomes a text with a value, if its key has a text. -/
theorem toPairs_cons {key value : Data} (h : toPairs ((key, value) :: pairs) = .ok entries) :
    ∃ text v rest, key.keyText? = some text ∧ value.toValue = .ok v ∧ toPairs pairs = .ok rest ∧
      entries = (text, v) :: rest := by
  unfold toPairs at h
  cases htext : key.keyText? with
  | none =>
    rw [htext] at h
    cases h
  | some text =>
    rw [htext] at h
    obtain ⟨v, hv, h⟩ := bind_eq_ok h
    obtain ⟨rest, hrest, h⟩ := bind_eq_ok h
    cases h
    exact ⟨text, v, rest, rfl, hv, hrest, rfl⟩

/-- Pairs are converted in their places. -/
theorem keys_toPairs (h : toPairs pairs = .ok entries) :
    pairs.map (fun p => p.1.keyText?) = entries.keys.map some := by
  induction pairs generalizing entries with
  | nil =>
    cases h
    rfl
  | cons pair pairs ih =>
    obtain ⟨text, v, rest, htext, -, hrest, rfl⟩ := toPairs_cons h
    rw [List.map_cons, ih hrest, htext]
    rfl

mutual

/-- The values of trees hold no key twice. -/
theorem distinct_toValue (d : Data) {v : Value} (h : d.toValue = .ok v) : v.Distinct := by
  cases d with
  | sequence items =>
    obtain ⟨values, hvalues, rfl⟩ := toValue_sequence h
    exact Value.distinct_list.mpr (distinct_toValues items hvalues)
  | mapping pairs =>
    obtain ⟨entries, hentries, rfl⟩ := toValue_mapping h
    obtain ⟨hkeys, hmem⟩ := Entries.ofList_distinct entries
    exact Value.distinct_map.mpr
      ⟨hkeys, fun e he => distinct_toPairs pairs hentries e (hmem e he)⟩
  | tagged tag content => exact distinct_toValue content h
  | _ =>
    cases h
    exact fun entries h => nomatch h

theorem distinct_toValues (items : List Data) {values : List Value}
    (h : toValues items = .ok values) : ∀ v ∈ values, v.Distinct := by
  cases items with
  | nil =>
    cases h
    exact fun v hv => absurd hv List.not_mem_nil
  | cons item rest =>
    obtain ⟨v, values, hv, hrest, rfl⟩ := toValues_cons h
    exact List.forall_mem_cons.mpr ⟨distinct_toValue item hv, distinct_toValues rest hrest⟩

theorem distinct_toPairs (pairs : List (Data × Data)) {entries : Entries Value}
    (h : toPairs pairs = .ok entries) : ∀ e ∈ entries, e.2.Distinct := by
  cases pairs with
  | nil =>
    cases h
    exact fun e he => absurd he List.not_mem_nil
  | cons pair rest =>
    obtain ⟨text, v, entries, -, hv, hrest, rfl⟩ := toPairs_cons h
    exact List.forall_mem_cons.mpr ⟨distinct_toValue pair.2 hv, distinct_toPairs rest hrest⟩

end

/-! ## 5. No entry is lost -/

/-- The texts of keys are distinct where no keys clash. -/
theorem keys_nodup (wellKeyed : (mapping pairs).WellKeyed) (clashFree : ¬(mapping pairs).Clashes)
    (h : toPairs pairs = .ok entries) : entries.keys.Nodup := by
  have htexts : (pairs.map fun p => p.1.keyText?).Nodup := by
    rw [List.Nodup, List.pairwise_map]
    -- Two keys with one text are both strings or both of other types, and then they are equal.
    refine (wellKeyed pairs (.self _)).imp_of_mem fun {p q} hp hq heqv hsame => ?_
    have hclash {a b : Data × Data} (ha : a ∈ pairs) (hb : b ∈ pairs)
        (hsame : a.1.keyText? = b.1.keyText?) (hstring : a.1.IsString) : b.1.IsString := by
      by_contra hother
      exact clashFree ⟨pairs, .self _, a, ha, b, hb, hstring, hother, hsame⟩
    have hmem : p.1.keyText? ∈ entries.keys.map some :=
      keys_toPairs h ▸ List.mem_map_of_mem hp
    obtain ⟨text, -, htext⟩ := List.mem_map.mp hmem
    rw [eqv_of_keyText? (hsame.symm.trans htext.symm) htext.symm
      ⟨hclash hq hp hsame.symm, hclash hp hq hsame⟩] at heqv
    cases heqv
  rw [keys_toPairs h] at htexts
  exact htexts.of_map

mutual

/-- Where no keys clash, a value mirrors the tree that it is converted from. -/
theorem mirrors_of_not_clashes (d : Data) {v : Value} (wellKeyed : d.WellKeyed)
    (clashFree : ¬d.Clashes) (h : d.toValue = .ok v) : d.Mirrors v := by
  cases d with
  | null => cases h; exact .null
  | bool b => cases h; exact .bool b
  | integer i => cases h; exact .integer i
  | float n => cases h; exact .float n
  | string s => cases h; exact .string s
  | sequence items =>
    obtain ⟨values, hvalues, rfl⟩ := toValue_sequence h
    have hpart {item : Data} (mem : item ∈ items) : item.Within (.sequence items) :=
      .item mem (.self _)
    exact .sequence (itemsMirror_of_not_clashes items (fun item mem => wellKeyed.within (hpart mem))
      (fun item mem hclash => clashFree (hclash.within (hpart mem))) hvalues)
  | mapping pairs =>
    obtain ⟨entries, hentries, rfl⟩ := toValue_mapping h
    have hpart {pair : Data × Data} (mem : pair ∈ pairs) : pair.2.Within (.mapping pairs) :=
      .value mem (.self _)
    -- No entry overwrites one before it.
    rw [Entries.ofList_eq_self (keys_nodup wellKeyed clashFree hentries)]
    exact .mapping (pairsMirror_of_not_clashes pairs (fun pair mem => wellKeyed.within (hpart mem))
      (fun pair mem hclash => clashFree (hclash.within (hpart mem))) hentries)
  | tagged tag content =>
    have hpart : content.Within (.tagged tag content) := .content (.self _)
    exact .tagged (mirrors_of_not_clashes content (wellKeyed.within hpart)
      (fun hclash => clashFree (hclash.within hpart)) h)

theorem itemsMirror_of_not_clashes (items : List Data) {values : List Value}
    (wellKeyed : ∀ item ∈ items, item.WellKeyed) (clashFree : ∀ item ∈ items, ¬item.Clashes)
    (h : toValues items = .ok values) : ItemsMirror items values := by
  cases items with
  | nil => cases h; exact .nil
  | cons item rest =>
    obtain ⟨v, values, hv, hrest, rfl⟩ := toValues_cons h
    rw [List.forall_mem_cons] at wellKeyed clashFree
    exact .cons (mirrors_of_not_clashes item wellKeyed.1 clashFree.1 hv)
      (itemsMirror_of_not_clashes rest wellKeyed.2 clashFree.2 hrest)

theorem pairsMirror_of_not_clashes (pairs : List (Data × Data)) {entries : Entries Value}
    (wellKeyed : ∀ pair ∈ pairs, pair.2.WellKeyed) (clashFree : ∀ pair ∈ pairs, ¬pair.2.Clashes)
    (h : toPairs pairs = .ok entries) : PairsMirror pairs entries := by
  cases pairs with
  | nil => cases h; exact .nil
  | cons pair rest =>
    obtain ⟨text, v, entries, htext, hv, hrest, rfl⟩ := toPairs_cons h
    rw [List.forall_mem_cons] at wellKeyed clashFree
    exact .cons htext (mirrors_of_not_clashes pair.2 wellKeyed.1 clashFree.1 hv)
      (pairsMirror_of_not_clashes rest wellKeyed.2 clashFree.2 hrest)

end

theorem ItemsMirror.exists_of_mem {items : List Data} {values : List Value}
    (h : ItemsMirror items values) (mem : d ∈ items) : ∃ v ∈ values, d.Mirrors v := by
  induction items generalizing values with
  | nil => exact absurd mem List.not_mem_nil
  | cons item rest ih =>
    obtain - | ⟨first, others⟩ := h
    rcases List.mem_cons.mp mem with rfl | hrest
    · exact ⟨_, List.mem_cons_self, first⟩
    · obtain ⟨v, hv, hmirrors⟩ := ih others hrest
      exact ⟨v, List.mem_cons_of_mem _ hv, hmirrors⟩

/-- Every pair has its entry, under the text of its key. -/
theorem PairsMirror.exists_of_mem {pair : Data × Data} (h : PairsMirror pairs entries)
    (mem : pair ∈ pairs) : ∃ e ∈ entries, pair.1.keyText? = some e.1 ∧ pair.2.Mirrors e.2 := by
  induction pairs generalizing entries with
  | nil => exact absurd mem List.not_mem_nil
  | cons first rest ih =>
    obtain - | ⟨named, mirrored, others⟩ := h
    rcases List.mem_cons.mp mem with rfl | hrest
    · exact ⟨_, List.mem_cons_self, named, mirrored⟩
    · obtain ⟨e, he, hpair⟩ := ih others hrest
      exact ⟨e, List.mem_cons_of_mem _ he, hpair⟩

/-- Every part of a tree is mirrored by a part of the value. -/
theorem Mirrors.within (h : d.Mirrors v) (hw : e.Within d) : ∃ w, w.Within v ∧ e.Mirrors w := by
  induction hw generalizing v with
  | self => exact ⟨v, .self v, h⟩
  | item mem _ ih =>
    cases h with
    | sequence mirrored =>
      obtain ⟨item, hitem, hmirrors⟩ := mirrored.exists_of_mem mem
      obtain ⟨w, hw, hpart⟩ := ih hmirrors
      exact ⟨w, .item hitem hw, hpart⟩
  | value mem _ ih =>
    cases h with
    | mapping mirrored =>
      obtain ⟨entry, hentry, -, hmirrors⟩ := mirrored.exists_of_mem mem
      obtain ⟨w, hw, hpart⟩ := ih hmirrors
      exact ⟨w, .entry hentry hw, hpart⟩
  | content _ ih =>
    cases h with
    | tagged mirrored => exact ih mirrored

/-- Where the keys of entries are distinct, keys with one text are one key. -/
theorem PairsMirror.eq_of_keyText? (h : PairsMirror pairs entries) (distinct : entries.keys.Nodup)
    {p q : Data × Data} (hp : p ∈ pairs) (hq : q ∈ pairs) (hsame : p.1.keyText? = q.1.keyText?) :
    p = q := by
  induction pairs generalizing entries with
  | nil => exact absurd hp List.not_mem_nil
  | cons first rest ih =>
    cases h with
    | @cons key value text v rest entries named mirrored others =>
      obtain ⟨hfresh, hdistinct⟩ := List.nodup_cons.mp distinct
      have hlater {pair : Data × Data} (hpair : pair ∈ rest)
          (htext : pair.1.keyText? = some text) : text ∈ entries.keys := by
        obtain ⟨e, he, hname, -⟩ := others.exists_of_mem hpair
        rw [htext] at hname
        exact List.mem_map.mpr ⟨e, he, (Option.some.inj hname).symm⟩
      rcases List.mem_cons.mp hp with rfl | hp <;> rcases List.mem_cons.mp hq with rfl | hq
      · rfl
      · exact absurd (hlater hq (hsame.symm.trans named)) hfresh
      · exact absurd (hlater hp (hsame.trans named)) hfresh
      · exact ih others hdistinct hp hq

/-! ## 6. Data of documents -/

/-- What has no parts has no mappings. -/
theorem wellKeyed_leaf (h : d = .null ∨ d.keyText?.isSome = true) : d.WellKeyed := by
  intro pairs hpairs
  cases hpairs with
  | self | item | value | content =>
    cases h with
    | inl hnull => cases hnull
    | inr hkey => cases hkey

theorem wellKeyed_sequence {items : List Data} (h : ∀ item ∈ items, item.WellKeyed) :
    (sequence items).WellKeyed := by
  intro pairs hpairs
  cases hpairs with
  | item mem within => exact h _ mem pairs within

/-- A mapping whose keys differ is well keyed if its values are. -/
theorem wellKeyed_mapping (distinct : pairs.Pairwise fun p q => q.1.eqv p.1 = false)
    (h : ∀ pair ∈ pairs, pair.2.WellKeyed) : (mapping pairs).WellKeyed := by
  intro given hgiven
  cases hgiven with
  | self => exact distinct
  | value mem within => exact h _ mem given within

theorem wellKeyed_tagging {tag : Option String} {content : Except Fault Data}
    (hcontent : ∀ c, content = .ok c → c.WellKeyed) (h : tagging tag content = .ok d) :
    d.WellKeyed := by
  unfold tagging at h
  split at h
  · rename_i name _
    split at h
    · cases h
    · cases content with
      | error e => cases h
      | ok c =>
        cases h
        intro pairs hpairs
        cases hpairs with
        | content within => exact hcontent c rfl pairs within
  · exact hcontent d h

theorem wellKeyed_ofScalar {style : Style} {text : String} (h : ofScalar style text = .ok d) :
    d.WellKeyed := by
  unfold ofScalar at h
  split at h
  · split at h <;> cases h
    · exact wellKeyed_leaf (.inl rfl)
    · exact wellKeyed_leaf (.inr rfl)
    · exact wellKeyed_leaf (.inr rfl)
    · exact wellKeyed_leaf (.inr rfl)
    · exact wellKeyed_leaf (.inr rfl)
  · cases h
    exact wellKeyed_leaf (.inr rfl)

/-- A tag asks for data of its type. -/
theorem eq_some_of_typed {given : Option Data}
    (h : (match given with
      | some d => Except.ok d
      | none => .error Fault.mistypedScalar) = .ok d) : given = some d := by
  cases given with
  | none => cases h
  | some c => exact congrArg some (Except.ok.inj h)

theorem wellKeyed_ofTaggedScalar {tag text : String} (h : ofTaggedScalar tag text = .ok d) :
    d.WellKeyed := by
  unfold ofTaggedScalar at h
  dsimp only at h
  split at h
  · have hnull := eq_some_of_typed h
    split at hnull <;> cases hnull
    exact wellKeyed_leaf (.inl rfl)
  · split at h
    · obtain ⟨b, -, rfl⟩ := Option.map_eq_some_iff.mp (eq_some_of_typed h)
      exact wellKeyed_leaf (.inr rfl)
    · split at h
      · obtain ⟨i, -, rfl⟩ := Option.map_eq_some_iff.mp (eq_some_of_typed h)
        exact wellKeyed_leaf (.inr rfl)
      · split at h
        · obtain ⟨n, -, rfl⟩ := Option.map_eq_some_iff.mp (eq_some_of_typed h)
          exact wellKeyed_leaf (.inr rfl)
        · cases h
          exact wellKeyed_leaf (.inr rfl)

/-- A pair is read only if its key is unlike those before. -/
theorem ofPairs_cons {seen : List Data} {keyTree valueTree : Tree} {rest : List (Tree × Tree)}
    (h : ofPairs seen ((keyTree, valueTree) :: rest) = .ok pairs) :
    ∃ key value others, ofTree valueTree = .ok value ∧ seen.any key.eqv = false ∧
      ofPairs (key :: seen) rest = .ok others ∧ pairs = (key, value) :: others := by
  unfold ofPairs at h
  obtain ⟨key, -, h⟩ := bind_eq_ok h
  split at h
  · cases h
  · rename_i hseen
    obtain ⟨value, hvalue, h⟩ := bind_eq_ok h
    obtain ⟨others, hrest, h⟩ := bind_eq_ok h
    cases h
    exact ⟨key, value, others, hvalue, Bool.not_eq_true _ ▸ hseen, hrest, rfl⟩

mutual

/-- Data that is read from a document has no equal keys in a mapping. -/
theorem wellKeyed_ofTree (tree : Tree) {d : Data} (h : ofTree tree = .ok d) : d.WellKeyed := by
  cases tree with
  | scalar tag style text =>
    unfold ofTree at h
    split at h
    · exact wellKeyed_ofTaggedScalar h
    · exact wellKeyed_tagging (fun c hc => wellKeyed_ofScalar hc) h
  | sequence tag items =>
    unfold ofTree at h
    refine wellKeyed_tagging (fun c hc => ?_) h
    obtain ⟨data, hitems, rfl⟩ := map_eq_ok hc
    exact wellKeyed_sequence (wellKeyed_ofItems items hitems)
  | mapping tag pairs =>
    unfold ofTree at h
    refine wellKeyed_tagging (fun c hc => ?_) h
    obtain ⟨data, hpairs, rfl⟩ := map_eq_ok hc
    obtain ⟨hdistinct, -, hvalues⟩ := wellKeyed_ofPairs pairs [] hpairs
    exact wellKeyed_mapping hdistinct hvalues

theorem wellKeyed_ofItems (items : List Tree) {data : List Data} (h : ofItems items = .ok data) :
    ∀ item ∈ data, item.WellKeyed := by
  cases items with
  | nil =>
    cases h
    exact fun item hitem => absurd hitem List.not_mem_nil
  | cons item rest =>
    unfold ofItems at h
    obtain ⟨first, hitem, h⟩ := bind_eq_ok h
    obtain ⟨others, hrest, h⟩ := bind_eq_ok h
    cases h
    exact List.forall_mem_cons.mpr ⟨wellKeyed_ofTree item hitem, wellKeyed_ofItems rest hrest⟩

/-- The keys of pairs that are read are new. -/
theorem wellKeyed_ofPairs (pairs : List (Tree × Tree)) (seen : List Data)
    {data : List (Data × Data)} (h : ofPairs seen pairs = .ok data) :
    (data.Pairwise fun p q => q.1.eqv p.1 = false) ∧
      (∀ p ∈ data, ∀ key ∈ seen, p.1.eqv key = false) ∧ ∀ p ∈ data, p.2.WellKeyed := by
  cases pairs with
  | nil =>
    cases h
    exact ⟨.nil, fun p hp => absurd hp List.not_mem_nil, fun p hp => absurd hp List.not_mem_nil⟩
  | cons pair rest =>
    obtain ⟨keyTree, valueTree⟩ := pair
    obtain ⟨key, value, others, hvalue, hfresh, hrest, rfl⟩ := ofPairs_cons h
    obtain ⟨hdistinct, hnew, hvalues⟩ := wellKeyed_ofPairs rest (key :: seen) hrest
    refine ⟨List.pairwise_cons.mpr ⟨fun p hp => hnew p hp key List.mem_cons_self, hdistinct⟩, ?_,
      List.forall_mem_cons.mpr ⟨wellKeyed_ofTree valueTree hvalue, hvalues⟩⟩
    refine List.forall_mem_cons.mpr ⟨fun k hk => ?_, fun p hp k hk => ?_⟩
    · exact eq_false_of_ne_true (List.any_eq_false.mp hfresh k hk)
    · exact hnew p hp k (List.mem_cons_of_mem _ hk)

end

/-- So it is in the data of a text. -/
theorem wellKeyed_read {text : String} (h : read text = .ok d) : d.WellKeyed := by
  unfold read at h
  obtain ⟨found, -, h⟩ := bind_eq_ok h
  cases found with
  | none =>
    cases h
    exact wellKeyed_leaf (.inl rfl)
  | some tree => exact wellKeyed_ofTree tree h

/-- A value mirrors the tree that it is converted from, entry by entry and in the same order, if
and only if no keys of one mapping clash.  Where they do, an entry is lost without an error. -/
theorem toValue_mirrors (d : Data) (wellKeyed : d.WellKeyed) (v : Value)
    (h : d.toValue = .ok v) : d.Mirrors v ↔ ¬d.Clashes := by
  constructor
  · rintro mirrored ⟨pairs, hpairs, p, hp, q, hq, hstring, hother, hsame⟩
    obtain ⟨w, hw, hmirrors⟩ := mirrored.within hpairs
    cases hmirrors with
    | mapping hmirrors =>
      have hdistinct := distinct_toValue d h _ hw
      exact hother (hmirrors.eq_of_keyText? hdistinct hp hq hsame ▸ hstring)
  · exact fun clashFree => mirrors_of_not_clashes d wellKeyed clashFree h

/-- A number and the string of another number are two keys. -/
theorem toValue_mirrors_numbers :
    (mapping [(.integer 1, .null), (.string "2", .null)]).Mirrors
      (.map [("1", .null), ("2", .null)]) := by
  have wellKeyed : (mapping [(.integer 1, .null), (.string "2", .null)]).WellKeyed := by
    refine wellKeyed_mapping (List.pairwise_pair.mpr rfl) fun pair hpair => ?_
    rcases List.mem_pair.mp hpair with rfl | rfl <;> exact wellKeyed_leaf (.inl rfl)
  refine (toValue_mirrors _ wellKeyed _ rfl).mpr ?_
  rintro ⟨pairs, hpairs, p, hp, q, hq, ⟨text, hstring⟩, hother, hsame⟩
  cases hpairs with
  | self =>
    rcases List.mem_pair.mp hp with rfl | rfl
    · cases hstring
    · rcases List.mem_pair.mp hq with rfl | rfl
      · exact absurd hsame (by decide)
      · exact hother ⟨_, rfl⟩
  | value mem within => rcases List.mem_pair.mp mem with rfl | rfl <;> cases within

/-- A number and the string of that number are two keys of a document, and one key of its value. -/
theorem toValue_mirrors_lost :
    ∃ d, ofTree (.mapping none [(.scalar none .plain "1", .scalar none .plain "a"),
        (.scalar none .doubleQuoted "1", .scalar none .plain "b")]) = .ok d ∧ d.WellKeyed ∧
      d = mapping [(.integer 1, .string "a"), (.string "1", .string "b")] ∧
      d.toValue = .ok (.map [("1", .string "b")]) ∧ ¬d.Mirrors (.map [("1", .string "b")]) := by
  have hread : ofTree (.mapping none [(.scalar none .plain "1", .scalar none .plain "a"),
        (.scalar none .doubleQuoted "1", .scalar none .plain "b")]) =
      .ok (mapping [(.integer 1, .string "a"), (.string "1", .string "b")]) := by
    have hnumber : ofTree (.scalar none .plain "1") = .ok (.integer 1) := rfl
    have hstring : ofTree (.scalar none .doubleQuoted "1") = .ok (.string "1") := rfl
    have ha : ofTree (.scalar none .plain "a") = .ok (.string "a") := rfl
    have hb : ofTree (.scalar none .plain "b") = .ok (.string "b") := rfl
    unfold ofTree
    simp only [ofPairs, hnumber, hstring, ha, hb]
    rfl
  refine ⟨_, hread, wellKeyed_ofTree _ hread, rfl, rfl, fun h => ?_⟩
  cases h with
  | mapping mirrored =>
    cases mirrored with
    | cons _ _ rest => cases rest

end Conform.Yaml.Data
