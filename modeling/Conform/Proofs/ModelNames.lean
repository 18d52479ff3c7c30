import Conform.Proofs.Keys
import Conform.Proofs.Reloading
import Conform.Proofs.Search

/-!
# Model names — the names that a model may give to its schemas

The pattern of names is written without look-around: it lists the ways in which a text can differ
from the word `type`.  A text parts from the word at one of its letters, goes on behind it, or ends
within it.  For every word the listed ways match all texts but the empty one, the word itself, and
the texts that go on with a line feed, since the dot leaves the line feed out
(`matchesPrefix_allBut`).  So a model can use every name but these (`modelNames`).
-/

namespace Conform.Regex

variable (before : Option Char) (text rest : List Char) (c : Char)

/-! ## 1. Choices and single characters -/

theorem matchesPrefix_empty : matchesPrefix before .empty text = true := by
  cases text <;> rfl

theorem matchesPrefix_alt (a b : Regex) :
    matchesPrefix before (.alt a b) text =
      (matchesPrefix before a text || matchesPrefix before b text) := by
  cases text with
  | nil => rfl
  | cons c rest =>
    simp only [matchesPrefix, nullable, derivatives, List.any_append]
    -- The four parts stand in different orders on both sides.
    generalize nullable before (some c) a = x, nullable before (some c) b = y
    cases x <;> cases y <;> simp only [Bool.or_true, Bool.true_or, Bool.false_or]

/-- A choice matches where one of its expressions does. -/
theorem matchesPrefix_alternatives {choices : List Regex} (h : choices ≠ []) :
    matchesPrefix before (alternatives choices) text =
      choices.any (matchesPrefix before · text) := by
  induction choices with
  | nil => exact absurd rfl h
  | cons a choices ih =>
    cases choices with
    | nil => exact (Bool.or_false _).symm
    | cons b choices =>
      show matchesPrefix before (.alt a (alternatives (b :: choices))) text = _
      rw [matchesPrefix_alt, ih (List.cons_ne_nil b choices)]
      rfl

theorem matchesPrefix_set (s : CharSet) :
    matchesPrefix before (.set s) (c :: rest) = s.mem c := by
  simp only [matchesPrefix, nullable, derivatives, Bool.false_or]
  cases s.mem c with
  | false => rfl
  | true =>
    show (matchesPrefix (some c) .empty rest || false) = true
    rw [matchesPrefix_empty, Bool.or_false]

/-! ## 2. All texts but a word -/

def lead (c : Char) (r : Regex) : Regex := .seq (.set (.singleton c)) r

def anyBut (c : Char) : Regex := .set (.compl (.singleton c))

def partings : List Char → List Regex
  | [] => []
  | c :: w => anyBut c :: (partings w).map (lead c)

def goingOn (w : List Char) : Regex := w.foldr lead (anyBut '\n')

def stops : List Char → List Regex
  | [] => []
  | [_] => []
  | c :: e :: w => lead c (.assertion .textEnd) :: (stops (e :: w)).map (lead c)

def allBut (w : List Char) : Regex := alternatives (partings w ++ goingOn w :: stops w)

theorem matchesPrefix_lead (r : Regex) (d : Char) :
    matchesPrefix before (lead c r) (d :: rest) =
      (decide (d = c) && matchesPrefix (some d) r rest) := by
  rw [lead, matchesPrefix_set_cons, mem_singleton]

theorem matchesPrefix_anyBut (d : Char) :
    matchesPrefix before (anyBut c) (d :: rest) = decide (d ≠ c) := by
  rw [anyBut, matchesPrefix_set, decide_not, ← mem_singleton]
  rfl

theorem any_lead_nil (rs : List Regex) :
    (rs.map (lead c)).any (matchesPrefix before · []) = false := by
  rw [List.any_map]
  exact List.any_eq_false.mpr fun r _ => Bool.false_ne_true

theorem any_lead (rs : List Regex) (d : Char) :
    (rs.map (lead c)).any (matchesPrefix before · (d :: rest)) =
      (decide (d = c) && rs.any (matchesPrefix (some d) · rest)) := by
  induction rs with
  | nil => exact (Bool.and_false _).symm
  | cons r rs ih =>
    rw [List.map_cons, List.any_cons, List.any_cons, ih, matchesPrefix_lead,
      Bool.and_or_distrib_left]

/-- The text and the word part where neither of them begins with the other one. -/
theorem any_partings (w : List Char) :
    (partings w).any (matchesPrefix before · text) = true ↔ ¬text <+: w ∧ ¬w <+: text := by
  induction w generalizing before text with
  | nil =>
    simp only [partings, List.any_nil, Bool.false_eq_true, List.nil_prefix, not_true, and_false]
  | cons c w ih =>
    cases text with
    | nil =>
      rw [partings, List.any_cons, any_lead_nil]
      simp only [List.nil_prefix, not_true, false_and, iff_false]
      exact Bool.false_ne_true
    | cons d rest =>
      rw [partings, List.any_cons, any_lead, matchesPrefix_anyBut, Bool.or_eq_true,
        Bool.and_eq_true, decide_eq_true_eq, decide_eq_true_eq, ih, List.cons_prefix_cons,
        List.cons_prefix_cons]
      by_cases h : d = c
      · simp only [h, ne_eq, not_true, true_and, false_or]
      · simp only [h, Ne.symm h, ne_eq, not_false_eq_true, false_and, and_self, or_false]

/-- The dot behind a word stands for any character but a line feed. -/
theorem matchesPrefix_goingOn (w : List Char) :
    matchesPrefix before (goingOn w) text = true ↔ ∃ c rest, c ≠ '\n' ∧ text = w ++ c :: rest := by
  induction w generalizing before text with
  | nil =>
    cases text with
    | nil => exact ⟨fun h => absurd h Bool.false_ne_true, fun ⟨_, _, _, h⟩ => nomatch h⟩
    | cons d rest =>
      show matchesPrefix before (anyBut '\n') (d :: rest) = true ↔ _
      rw [matchesPrefix_anyBut, decide_eq_true_eq]
      constructor
      · intro h
        exact ⟨d, rest, h, rfl⟩
      · rintro ⟨c, rest, h, htext⟩
        cases htext
        exact h
  | cons e w ih =>
    cases text with
    | nil => exact ⟨fun h => absurd h Bool.false_ne_true, fun ⟨_, _, _, h⟩ => nomatch h⟩
    | cons d rest =>
      show matchesPrefix before (lead e (goingOn w)) (d :: rest) = true ↔ _
      rw [matchesPrefix_lead, Bool.and_eq_true, decide_eq_true_eq, ih]
      constructor
      · rintro ⟨rfl, c, tail, h, rfl⟩
        exact ⟨c, tail, h, rfl⟩
      · rintro ⟨c, tail, h, htext⟩
        cases htext
        exact ⟨rfl, c, tail, h, rfl⟩

/-- The ways to stop match the texts that begin the word and are not all of it. -/
theorem any_stops (w : List Char) :
    (stops w).any (matchesPrefix before · text) = true ↔ text ≠ [] ∧ text <+: w ∧ text ≠ w := by
  induction w generalizing before text with
  | nil =>
    rw [stops, List.any_nil, List.prefix_nil]
    exact ⟨fun h => absurd h Bool.false_ne_true, fun h => absurd h.2.1 h.1⟩
  | cons c w ih =>
    cases text with
    | nil =>
      simp only [ne_eq, not_true, false_and, iff_false]
      cases w with
      | nil => exact Bool.false_ne_true
      | cons e w =>
        rw [stops, List.any_cons, any_lead_nil]
        exact Bool.false_ne_true
    | cons d rest =>
      rw [List.cons_prefix_cons]
      cases w with
      | nil =>
        rw [stops, List.any_nil, List.prefix_nil]
        apply iff_of_false Bool.false_ne_true
        rintro ⟨-, ⟨rfl, rfl⟩, hne⟩
        exact hne rfl
      | cons e w =>
        rw [stops, List.any_cons, any_lead, matchesPrefix_lead, matchesPrefix_end, Bool.or_eq_true,
          Bool.and_eq_true, Bool.and_eq_true, decide_eq_true_eq, ih, List.isEmpty_iff]
        constructor
        · rintro (⟨rfl, rfl⟩ | ⟨rfl, hrest, hw, hne⟩)
          · exact ⟨nofun, ⟨rfl, List.nil_prefix⟩, nofun⟩
          · exact ⟨nofun, ⟨rfl, hw⟩, fun h => hne (List.cons.inj h).2⟩
        · rintro ⟨-, ⟨rfl, hw⟩, hne⟩
          by_cases hrest : rest = []
          · exact .inl ⟨rfl, hrest⟩
          · exact .inr ⟨rfl, hrest, hw, fun h => hne (by rw [h])⟩

/-- The listed ways leave three kinds of texts out. -/
theorem matchesPrefix_allBut (w : List Char) :
    matchesPrefix before (allBut w) text = true ↔
      text ≠ [] ∧ text ≠ w ∧ ¬w ++ ['\n'] <+: text := by
  rw [allBut, matchesPrefix_alternatives before text (by simp), List.any_append, List.any_cons,
    Bool.or_eq_true, Bool.or_eq_true, any_partings, matchesPrefix_goingOn, any_stops]
  by_cases hword : w <+: text
  · obtain ⟨tail, rfl⟩ := hword
    cases tail with
    | nil => simp
    | cons c tail =>
      -- The text is longer than the word: it can only go on.
      have hlong : ¬w ++ c :: tail <+: w := by
        intro h
        have hlength := h.length_le
        rw [List.length_append, List.length_cons] at hlength
        omega
      have hgo : (∃ d rest, d ≠ '\n' ∧ w ++ c :: tail = w ++ d :: rest) ↔ c ≠ '\n' := by
        simp only [List.append_cancel_left_eq, List.cons.injEq]
        constructor
        · rintro ⟨d, rest, hd, rfl, -⟩
          exact hd
        · intro hc
          exact ⟨c, tail, hc, rfl, rfl⟩
      have hfeed : w ++ ['\n'] <+: w ++ c :: tail ↔ '\n' = c := by
        simp only [List.prefix_append_right_inj, List.cons_prefix_cons, List.nil_prefix, and_true]
      have hne : w ++ c :: tail ≠ w := fun h => hlong ⟨[], (List.append_nil _).trans h⟩
      simp only [List.prefix_append, hlong, hgo, hfeed, hne, ne_eq, not_true, not_false_eq_true,
        and_false, false_and, true_and, or_false, false_or, List.append_eq_nil_iff,
        List.cons_ne_nil]
      exact not_congr eq_comm
  · have hfeed : ¬w ++ ['\n'] <+: text := fun h => hword ((List.prefix_append w _).trans h)
    have hgo : ¬∃ c rest, c ≠ '\n' ∧ text = w ++ c :: rest := by
      rintro ⟨c, rest, -, rfl⟩
      exact hword (List.prefix_append w _)
    have hne : text ≠ w := fun h => hword (h ▸ List.prefix_rfl)
    simp only [hword, hgo, hfeed, hne, not_false_eq_true, and_true, ne_eq, false_or]
    constructor
    · rintro (h | h) rfl
      · exact h List.nil_prefix
      · exact h.1 rfl
    · intro h
      by_cases htext : text <+: w
      · exact .inr ⟨h, htext⟩
      · exact .inl htext

end Conform.Regex

namespace Conform

/-! ## 3. The pattern of names -/

/-- The names that the pattern of names lets through. -/
def IsModelName (name : String) : Prop :=
  name ≠ "" ∧ name ≠ "type" ∧ ¬"type\n".toList <+: name.toList

instance (name : String) : Decidable (IsModelName name) :=
  inferInstanceAs (Decidable (_ ∧ _ ∧ ¬_))

theorem Metamodel.read_modelKeySource :
    (Regex.read {} modelKeySource).toOption =
      some (.seq (.assertion .textStart) (.allBut "type".toList)) := by
  decide +kernel

/-- The pattern of names lets through all but the empty name, the word, and what begins with the
word and a line feed. -/
theorem Metamodel.modelKeyPattern_isMatch (name : String) :
    modelKeyPattern.isMatch name = true ↔ IsModelName name := by
  have hread : modelKeyPattern.regex = .seq (.assertion .textStart) (.allBut "type".toList) :=
    Pattern.regex_ofReadable _ read_modelKeySource
  rw [Pattern.isMatch, hread, Regex.isMatch_anchored, Regex.matchesPrefix_allBut, IsModelName,
    ne_eq, String.toList_eq_nil_iff, ne_eq, String.toList_inj]
  rfl

/-! ## 4. The names of models -/

namespace Model

/-- A schema under a name that is let through leaves a set well formed. -/
theorem wellFormed_insert {set : SchemaSet} {name : String} {schema : Schema} (h : set.WellFormed)
    (hname : IsModelName name)
    (hschema : (SchemaRef.inline schema).Regular (set.insert name schema).Knows) :
    (set.insert name schema).WellFormed := by
  have hkeys : (set.insert name schema).names =
      if name ∈ set.names then set.names else set.names ++ [name] :=
    Entries.keys_insert set.schemas name schema
  constructor
  · intro n hn
    rw [hkeys] at hn
    split at hn
    · exact h.names n hn
    · rcases List.mem_append.mp hn with hn | hn
      · exact h.names n hn
      · rw [List.mem_singleton.mp hn]
        exact (Metamodel.modelKeyPattern_isMatch name).mpr hname
  · intro e he
    rcases Entries.mem_of_mem_insert he with he | rfl
    · -- What the set knows it still knows with one more name.
      apply (h.regular e he).imp
      intro n hn
      apply hn.imp_left
      intro hcontains
      apply Entries.contains_iff.mpr
      show n ∈ (set.insert name schema).names
      rw [hkeys]
      split
      · exact Entries.contains_iff.mp hcontains
      · exact List.mem_append_left _ (Entries.contains_iff.mp hcontains)
    · exact hschema

/-- The pattern of names takes every name but the empty one, the word `type`, and those that begin
with that word and a line feed; on these last ones, and on no others, it is not what it was written
for.  A model has no name that the pattern leaves out, and every other name can be given to one more
schema of a model, once the names in that schema mean something and its bounds can be written. -/
theorem modelNames (name : String) :
    Metamodel.schemas.get? "model" =
        some (.index (.named "schema") (some Metamodel.modelKeyPattern)) ∧
      (Metamodel.modelKeyPattern.isMatch name = true ↔ IsModelName name) ∧
      ((Metamodel.modelKeyPattern.isMatch name = true ↔ name ≠ "" ∧ name ≠ "type") ↔
        ¬"type\n".toList <+: name.toList) ∧
      (∀ spec options m, build spec options = .ok m → name ∈ m.schemas.names →
        IsModelName name) ∧
      (IsModelName name → ∀ (set : SchemaSet) (schema : Schema), set.WellFormed →
        (SchemaRef.inline schema).Regular (set.insert name schema).Knows →
        ∃ depth, ∀ options : Options, depth ≤ options.depthLimit →
          build (set.insert name schema).toValue options =
            .ok ⟨set.insert name schema, options⟩) := by
  have hmatch := Metamodel.modelKeyPattern_isMatch name
  refine ⟨rfl, hmatch, ?_, ?_, ?_⟩
  · rw [hmatch, IsModelName]
    constructor
    · intro h hfeed
      have hempty : name ≠ "" := by
        rintro rfl
        exact absurd hfeed (by decide)
      have hword : name ≠ "type" := by
        rintro rfl
        exact absurd hfeed (by decide)
      exact (h.mpr ⟨hempty, hword⟩).2.2 hfeed
    · intro hfeed
      rw [and_iff_left hfeed]
  · intro spec options m hm hname
    exact hmatch.mp ((wellFormed_of_build hm).names name hname)
  · intro hname set schema hset hschema
    exact build_of_wellFormed (wellFormed_insert hset hname hschema)

def almostType : SchemaSet where
  schemas := [("typ", .boolean)]

theorem wellFormed_almostType : almostType.WellFormed := by
  constructor
  · rw [almostType, SchemaSet.names, Entries.keys, List.map_singleton, List.forall_mem_singleton,
      Metamodel.modelKeyPattern_isMatch]
    decide
  · simp only [almostType, List.forall_mem_cons, List.not_mem_nil, false_implies, implies_true,
      and_true]
    exact SchemaRef.regular_inline (by trivial) fun part hpart => absurd hpart List.not_mem_nil

theorem modelNames_types :
    IsModelName "types\n" ∧ almostType.WellFormed ∧ ∃ options m,
      build (almostType.insert "types\n" (.list (.named "typ"))).toValue options = .ok m ∧
        "types\n" ∈ m.schemas.names := by
  have hname : IsModelName "types\n" := by decide
  have hschema : (SchemaRef.inline (.list (.named "typ"))).Regular
      (almostType.insert "types\n" (.list (.named "typ"))).Knows := by
    apply SchemaRef.regular_inline (by trivial)
    rw [Schema.parts, List.forall_mem_singleton]
    exact SchemaRef.regular_named (.inl rfl)
  obtain ⟨-, -, -, -, hbuild⟩ := modelNames "types\n"
  obtain ⟨depth, hdepth⟩ := hbuild hname almostType _ wellFormed_almostType hschema
  have hm := hdepth { maxDepth := some depth } (Nat.le_refl depth)
  refine ⟨hname, wellFormed_almostType, _, _, hm, ?_⟩
  exact List.mem_cons_of_mem _ List.mem_cons_self

/-- A name that goes on behind the word with a line feed is refused, and so is the model. -/
theorem modelNames_line_feed :
    ¬(∀ name : String,
        Metamodel.modelKeyPattern.isMatch name = true ↔ name ≠ "" ∧ name ≠ "type") ∧
      ¬∃ m, build (.map [("type\n", .map [("type", .string "boolean")])]) {} = .ok m := by
  constructor
  · intro h
    have hmatch := (h "type\n").mpr (by decide)
    rw [Metamodel.modelKeyPattern_isMatch] at hmatch
    exact hmatch.2.2 List.prefix_rfl
  · rintro ⟨m, hm⟩
    have hfails :
        (build (.map [("type\n", .map [("type", .string "boolean")])]) {}).isOk = false := by
      decide +kernel
    rw [hm] at hfails
    cases hfails

end Model
end Conform
