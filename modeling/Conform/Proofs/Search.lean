import Conform.Metamodel

/-!
# Search — matching of anchored expressions

The search carries a set of open expressions through the text.  `matchesPrefix` follows one
expression from one place; the search is its trial at every place (`searchFrom_eq`), and of an
anchored expression at the first one only (`isMatch_anchored`).  An anchored choice of words
matches these words and nothing else, which is what the names of the primitives rest on.
-/

namespace Conform.Regex

/-! ## 1. Matching from one place -/

/-- Whether an expression matches a prefix of the text. -/
def matchesPrefix : Option Char → Regex → List Char → Bool
  | before, r, [] => nullable before none r
  | before, r, c :: rest =>
    nullable before (some c) r ||
      (derivatives before c r).any fun d => matchesPrefix (some c) d rest

/-- Adding states drops none and repeats none. -/
theorem mem_addNew {states seen : List Regex} {r : Regex} :
    r ∈ addNew states seen ↔ r ∈ states ∨ r ∈ seen := by
  unfold addNew
  induction states generalizing seen with
  | nil => exact ⟨.inr, fun h => h.resolve_left List.not_mem_nil⟩
  | cons s states ih =>
    rw [List.foldl_cons, ih, List.mem_cons]
    -- A state that was seen is left out, another one is put before the others.
    by_cases hs : seen.contains s = true
    · rw [if_pos hs]
      have hmem : s ∈ seen := List.contains_iff_mem.1 hs
      constructor
      · rintro (h | h)
        · exact .inl (.inr h)
        · exact .inr h
      · rintro ((rfl | h) | h)
        · exact .inr hmem
        · exact .inl h
        · exact .inr h
    · rw [if_neg hs, List.mem_cons]
      constructor
      · rintro (h | h | h)
        · exact .inl (.inr h)
        · exact .inl (.inl h)
        · exact .inr h
      · rintro ((h | h) | h)
        · exact .inr (.inl h)
        · exact .inl h
        · exact .inr (.inr h)

theorem any_addNew (states : List Regex) (p : Regex → Bool) :
    (addNew states []).any p = states.any p := by
  rw [Bool.eq_iff_iff, List.any_eq_true, List.any_eq_true]
  simp only [mem_addNew, List.not_mem_nil, or_false]

/-- The search from a place: the open expressions are tried there, the expression itself there and
at all later places. -/
theorem searchFrom_eq (start : Regex) (before : Option Char) (states : List Regex)
    (text : List Char) :
    searchFrom start before states text =
      (states.any (matchesPrefix before · text) || searchFrom start before [] text) := by
  induction text generalizing before states with
  | nil =>
    change (start :: states).any (nullable before none) =
      (states.any (nullable before none) || [start].any (nullable before none))
    rw [List.any_cons, List.any_cons, List.any_nil, Bool.or_false, Bool.or_comm]
  | cons c rest ih =>
    -- Only the derivatives that come from `states` distinguish the two searches.
    have hopen (l : List Regex) :
        ((start :: l).any (nullable before (some c)) || searchFrom start (some c)
          (addNew ((start :: l).flatMap (derivatives before c)) []) rest) =
        ((start :: l).any (matchesPrefix before · (c :: rest)) ||
          searchFrom start (some c) [] rest) := by
      rw [ih, any_addNew, List.any_flatMap, ← Bool.or_assoc]
      congr 1
      rw [Bool.eq_iff_iff]
      simp only [Bool.or_eq_true, List.any_eq_true, matchesPrefix]
      constructor
      · rintro (⟨r, hr, h⟩ | ⟨r, hr, h⟩)
        · exact ⟨r, hr, .inl h⟩
        · exact ⟨r, hr, .inr h⟩
      · rintro ⟨r, hr, h | h⟩
        · exact .inl ⟨r, hr, h⟩
        · exact .inr ⟨r, hr, h⟩
    rw [searchFrom, searchFrom, hopen states, hopen [], List.any_cons, List.any_cons, List.any_nil,
      Bool.or_false]
    cases matchesPrefix before start (c :: rest) <;>
      cases states.any (matchesPrefix before · (c :: rest)) <;> rfl

/-! ## 2. Anchored expressions -/

variable (before : Option Char) (text rest : List Char) (c : Char) (a b : Regex)

/-- The start of the text matches there only. -/
theorem matchesPrefix_start :
    matchesPrefix before (.seq (.assertion .textStart) b) text =
      (before.isNone && matchesPrefix before b text) := by
  cases text with
  | nil => rfl
  | cons c rest =>
    unfold matchesPrefix
    cases before <;> rfl

theorem matchesPrefix_end :
    matchesPrefix before (.assertion .textEnd) text = text.isEmpty := by
  cases text <;> rfl

/-- The first expression of a sequence reads the next character, or it matches nothing and leaves
it to the second one. -/
theorem matchesPrefix_seq :
    matchesPrefix before (.seq a b) (c :: rest) =
      ((derivatives before c a).any (fun d => matchesPrefix (some c) (d.andThen b) rest) ||
        nullable before (some c) a && matchesPrefix before b (c :: rest)) := by
  simp only [matchesPrefix, nullable, derivatives, List.any_append, List.any_map]
  by_cases h : nullable before (some c) a = true
  · rw [if_pos h, h, Bool.true_and, Bool.true_and, ← Bool.or_assoc, ← Bool.or_assoc,
      Bool.or_comm (nullable before (some c) b)]
    rfl
  · rw [if_neg h, Bool.eq_false_iff.2 h, Bool.false_and, Bool.false_and, List.any_nil,
      Bool.false_or]
    rfl

theorem matchesPrefix_alt_seq (d : Regex) :
    matchesPrefix before (.seq (.alt a b) d) text =
      (matchesPrefix before (.seq a d) text || matchesPrefix before (.seq b d) text) := by
  cases text with
  | nil =>
    change ((nullable before none a || nullable before none b) && nullable before none d) = _
    rw [Bool.and_or_distrib_right]
    rfl
  | cons c rest =>
    rw [matchesPrefix_seq, matchesPrefix_seq, matchesPrefix_seq, derivatives, List.any_append,
      nullable, Bool.and_or_distrib_right]
    -- The four matches stand in different orders on both sides.
    generalize (derivatives before c a).any _ = x, (derivatives before c b).any _ = y
    cases x <;> cases y <;> simp only [Bool.or_true, Bool.true_or, Bool.false_or, Bool.or_false]

/-- A group matches what is in it. -/
theorem matchesPrefix_group_seq :
    matchesPrefix before (.seq (.group a) b) text = matchesPrefix before (.seq a b) text := by
  cases text <;> rfl

theorem matchesPrefix_set_cons (s : CharSet) :
    matchesPrefix before (.seq (.set s) b) (c :: rest) =
      (s.mem c && matchesPrefix (some c) b rest) := by
  rw [matchesPrefix_seq, derivatives, nullable, Bool.false_and, Bool.or_false]
  by_cases h : s.mem c = true
  · rw [if_pos h, h, Bool.true_and, List.any_cons, List.any_nil, Bool.or_false]
    rfl
  · rw [if_neg h, List.any_nil, Bool.eq_false_iff.2 h, Bool.false_and]

/-- An expression that begins at the start of the text is tried there only. -/
theorem isMatch_anchored (text : String) :
    isMatch (.seq (.assertion .textStart) b) text = matchesPrefix none b text.toList := by
  -- Behind a character the anchor fails, so that the later trials find nothing.
  have hlater (c : Char) (rest : List Char) :
      searchFrom (.seq (.assertion .textStart) b) (some c) [] rest = false := by
    induction rest generalizing c with
    | nil => rfl
    | cons d rest ih => exact ih d
  unfold isMatch
  cases text.toList with
  | nil =>
    change (true && nullable none none b || false) = nullable none none b
    rw [Bool.or_false, Bool.true_and]
  | cons c rest =>
    rw [searchFrom, searchFrom_eq, hlater, any_addNew, Bool.or_false]
    have hstart := matchesPrefix_start none (c :: rest) b
    rw [matchesPrefix] at hstart
    simpa only [List.any_cons, List.any_nil, Bool.or_false, List.flatMap_cons, List.flatMap_nil,
      List.append_nil, Option.isNone_none, Bool.true_and] using hstart

/-! ## 3. Words -/

def word (w : List Char) : Regex := concat (w.map fun c => .set (.singleton c))

def wholeWord (words : List (List Char)) : Regex :=
  .seq (.assertion .textStart)
    (.seq (.group (alternatives (words.map word))) (.assertion .textEnd))

theorem mem_singleton (c d : Char) : (CharSet.singleton c).mem d = decide (d = c) := by
  change (decide (c ≤ d) && decide (d ≤ c)) = decide (d = c)
  rw [Bool.eq_iff_iff, Bool.and_eq_true, decide_eq_true_eq, decide_eq_true_eq, decide_eq_true_eq]
  exact ⟨fun h => Char.le_antisymm h.2 h.1, fun h => h ▸ ⟨Char.le_refl d, Char.le_refl d⟩⟩

theorem word_ne_empty {w : List Char} (h : w ≠ []) : word w ≠ .empty := by
  match w with
  | [] => exact absurd rfl h
  | [c] => exact nofun
  | c :: d :: rest => exact nofun

theorem andThen_end {r : Regex} (h : r ≠ .empty) :
    r.andThen (.assertion .textEnd) = .seq r (.assertion .textEnd) := by
  cases r with
  | empty => exact absurd rfl h
  | _ => rfl

/-- The word that a text ends with is the whole rest of it. -/
theorem matchesPrefix_word {w : List Char} (h : w ≠ []) :
    matchesPrefix before (.seq (word w) (.assertion .textEnd)) text = decide (text = w) := by
  induction w generalizing before text with
  | nil => exact absurd rfl h
  | cons c w ih =>
    cases text with
    | nil =>
      cases w <;> rfl
    | cons d rest =>
      -- The expression of the last character is no sequence.
      cases w with
      | nil =>
        change matchesPrefix before
          (.seq (.set (.singleton c)) (.assertion .textEnd)) (d :: rest) = _
        rw [matchesPrefix_set_cons, mem_singleton, matchesPrefix_end, Bool.eq_iff_iff,
          Bool.and_eq_true, decide_eq_true_eq, decide_eq_true_eq, List.isEmpty_iff, List.cons.injEq]
      | cons e w =>
        change matchesPrefix before
          (.seq (.seq (.set (.singleton c)) (word (e :: w))) (.assertion .textEnd)) (d :: rest) = _
        rw [matchesPrefix_seq, derivatives, derivatives, nullable, nullable, nullable,
          Bool.false_and, Bool.false_and, Bool.or_false, mem_singleton, if_neg Bool.false_ne_true,
          List.append_nil]
        by_cases hd : d = c
        · have hword := ih (some d) rest (List.cons_ne_nil e w)
          rw [if_pos (decide_eq_true hd), List.map_cons, List.map_nil, List.any_cons, List.any_nil,
            Bool.or_false]
          change matchesPrefix (some d) ((word (e :: w)).andThen (.assertion .textEnd)) rest = _
          rw [andThen_end (word_ne_empty (List.cons_ne_nil e w)), hword, decide_eq_decide,
            List.cons.injEq]
          exact ⟨fun h => ⟨hd, h⟩, fun h => h.2⟩
        · rw [if_neg (show ¬decide (d = c) = true by rw [decide_eq_true_eq]; exact hd),
            List.map_nil, List.any_nil]
          symm
          rw [decide_eq_false_iff_not, List.cons.injEq]
          exact fun h => hd h.1

/-- A choice of words before the end of the text matches the whole words. -/
theorem matchesPrefix_words {words : List (List Char)} (hsome : words ≠ [])
    (hwords : ∀ w ∈ words, w ≠ []) :
    matchesPrefix before (.seq (alternatives (words.map word)) (.assertion .textEnd)) text =
      decide (text ∈ words) := by
  induction words with
  | nil => exact absurd rfl hsome
  | cons w words ih =>
    have hw := matchesPrefix_word before text (hwords w List.mem_cons_self)
    cases words with
    | nil =>
      change matchesPrefix before (.seq (word w) (.assertion .textEnd)) text = _
      rw [hw, decide_eq_decide, List.mem_singleton]
    | cons w' words =>
      change matchesPrefix before
        (.seq (.alt (word w) (alternatives ((w' :: words).map word))) (.assertion .textEnd))
          text = _
      rw [matchesPrefix_alt_seq, hw, ih (List.cons_ne_nil w' words)
        fun v hv => hwords v (List.mem_cons_of_mem w hv), Bool.eq_iff_iff, Bool.or_eq_true,
        decide_eq_true_eq, decide_eq_true_eq, decide_eq_true_eq]
      exact List.mem_cons.symm

/-- An anchored choice of words matches these words. -/
theorem isMatch_wholeWord {words : List (List Char)} (hsome : words ≠ [])
    (hwords : ∀ w ∈ words, w ≠ []) (text : String) :
    isMatch (wholeWord words) text = decide (text.toList ∈ words) := by
  unfold wholeWord
  rw [isMatch_anchored, matchesPrefix_group_seq, matchesPrefix_words none text.toList hsome hwords]

end Conform.Regex

/-! ## 4. The names of the primitives -/

namespace Conform

/-- The compiled form of a pattern is known only through the reading of its source. -/
theorem Pattern.regex_ofReadable {source : String} {flags : PatternFlags} {r : Regex}
    (h : (Regex.read flags.toSwitches source).isOk = true)
    (hread : (Regex.read flags.toSwitches source).toOption = some r) :
    (ofReadable source flags h).regex = r := by
  unfold ofReadable
  split
  · rename_i hcompiled
    rw [hcompiled] at hread
    exact Option.some.inj hread
  · rename_i hcompiled
    rw [hcompiled] at h
    cases h

namespace Metamodel

theorem read_primitiveSource :
    (Regex.read {} primitiveSource).toOption =
      some (.wholeWord (PrimitiveKind.all.map fun kind => kind.name.toList)) := by
  decide +kernel

/-- The pattern of primitives matches their names and nothing else. -/
theorem primitivePattern_isMatch (name : String) :
    primitivePattern.isMatch name = (PrimitiveKind.ofName? name).isSome := by
  have hread : primitivePattern.regex =
      .wholeWord (PrimitiveKind.all.map fun kind => kind.name.toList) :=
    Pattern.regex_ofReadable _ read_primitiveSource
  rw [Pattern.isMatch, hread, Regex.isMatch_wholeWord (by decide) (by decide), Bool.eq_iff_iff,
    decide_eq_true_eq, PrimitiveKind.ofName?, List.find?_isSome, List.mem_map]
  constructor
  · rintro ⟨kind, hkind, hname⟩
    exact ⟨kind, hkind, beq_iff_eq.mpr (String.toList_inj.1 hname)⟩
  · rintro ⟨kind, hkind, hname⟩
    exact ⟨kind, hkind, congrArg String.toList (beq_iff_eq.mp hname)⟩

end Metamodel
end Conform
