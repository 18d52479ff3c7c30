import Conform.Json.Reader
import Conform.Proofs.Equality
import Conform.Proofs.Numerals

/-!
# JSON texts — values that are read back from their texts

The compact text of a document without fractions is read as that document, up to the depth that is
read (`Json.readValue_writeChars`).  So a value of the kinds that JSON has is given back by its text:
it is equal, and every mapping in it has its keys in the same order (`Value.toJson_preserves`).
-/

namespace Conform.Json

/-! ## 1. Strings -/

/-- A character that starts no escape ends the string, or stands for itself. -/
theorem readStringFrom_cons {c : Char} (rest : List Char) (hc : c ≠ '\\') :
    readStringFrom none (c :: rest) =
      if c = '"' then .ok ([], rest)
      else if c.toNat < 0x20 then .error .malformedString
      else consRead c (readStringFrom none rest) := by
  rw [readStringFrom.eq_def]
  split
  · contradiction
  · rename_i heq
    exact absurd (List.cons.inj heq).1 hc
  · rename_i heq
    cases heq
    rw [if_neg (by decide), if_neg hc]

/-- The escape of a control is read as the control. -/
theorem readStringFrom_control {n : Nat} (hn : n < 0x20) (rest : List Char) :
    readStringFrom none (['\\', 'u', '0', '0'] ++ hexPair n ++ rest) =
      consRead (Char.ofNat n) (readStringFrom none rest) := by
  have hunit : ∀ n < 0x20,
      hexUnit? '0' '0' (Nat.digitChar (n / 16)) (Nat.digitChar (n % 16)) = some n := by
    decide
  unfold hexPair
  change readStringFrom none ('\\' :: 'u' :: '0' :: '0' :: Nat.digitChar (n / 16) ::
    Nat.digitChar (n % 16) :: rest) = _
  rw [readStringFrom.eq_def]
  split
  · contradiction
  · rename_i heq
    cases heq
    rw [hunit n hn]
    dsimp only
    rw [if_neg (by omega), if_neg (by omega)]
  · rename_i hunescaped heq
    cases heq
    exact (hunescaped _ _ _ _ _ rfl rfl).elim

/-- What a character is written as is read as that character. -/
theorem readStringFrom_escape (c : Char) (rest : List Char) :
    readStringFrom none (escape c ++ rest) = consRead c (readStringFrom none rest) := by
  unfold escape
  split
  · rfl
  · rfl
  · rfl
  · rfl
  · rfl
  · rfl
  · rfl
  · rename_i hquote hbackslash _ _ _ _ _
    split
    · rename_i hcontrol
      rw [readStringFrom_control hcontrol, Char.ofNat_toNat]
    · rename_i hcontrol
      rw [List.singleton_append, readStringFrom_cons rest hbackslash, if_neg hquote,
        if_neg hcontrol]

/-- Escaped characters are read back up to the closing quote. -/
theorem readString_flatMap_escape (cs rest : List Char) :
    readString (cs.flatMap escape ++ '"' :: rest) = .ok (cs, rest) := by
  unfold readString
  induction cs with
  | nil => exact readStringFrom_cons rest (by decide)
  | cons c cs ih =>
    rw [List.flatMap_cons, List.append_assoc, readStringFrom_escape, ih]
    rfl

/-! ## 2. Integers -/

variable {rest : List Char}

def EndsNumber (rest : List Char) : Prop :=
  ∀ c ∈ rest.head?, Number.isDecimalDigit c = false ∧ c ≠ '.' ∧ c ≠ 'e' ∧ c ≠ 'E'

theorem readFraction_of_ends (h : EndsNumber rest) : readFraction rest = .ok (none, rest) := by
  unfold readFraction
  split
  · exact absurd rfl (h '.' rfl).2.1
  · rfl

theorem readExponent_of_ends (h : EndsNumber rest) : readExponent rest = .ok (none, rest) := by
  cases rest with
  | nil => rfl
  | cons e rest =>
    obtain ⟨-, -, hlower, hupper⟩ := h e rfl
    unfold readExponent
    dsimp only
    rw [if_neg (by rintro (heq | heq) <;> contradiction)]

/-- Digits without leading zeros are read as an integer, with the sign before them. -/
theorem readNumber_digits {negative : Bool} {digits : List Char} {d : Document}
    (hdigits : ∀ c ∈ digits, Number.isDecimalDigit c) (nonempty : digits ≠ [])
    (canonical : ∀ c more, digits ≠ '0' :: c :: more)
    (hinteger : integerOf negative digits = .ok d) (hrest : EndsNumber rest) :
    readNumber ((if negative then ['-'] else []) ++ digits ++ rest) = .ok (d, rest) := by
  obtain ⟨htake, hdrop⟩ := Number.takeWhile_digits hdigits fun c hc => (hrest c hc).1
  unfold readNumber
  split
  rename_i sign text heq
  -- Digits do not begin with a sign, so that the one taken off is the one that was put there.
  obtain ⟨rfl, rfl⟩ : negative = sign ∧ digits ++ rest = text := by
    cases negative with
    | true => exact Prod.mk.inj heq
    | false =>
      cases digits with
      | nil => exact absurd rfl nonempty
      | cons c digits =>
        split at heq
        · rename_i hhead
          have hc : c = '-' := (List.cons.inj hhead).1
          exact absurd (hdigits c List.mem_cons_self) (hc ▸ by decide)
        · exact Prod.mk.inj heq
  dsimp only
  rw [htake, hdrop]
  split
  · exact absurd rfl nonempty
  · exact absurd rfl (canonical _ _)
  · rw [readFraction_of_ends hrest]
    dsimp only [bind, Except.bind]
    rw [readExponent_of_ends hrest]
    dsimp only
    rw [hinteger]

/-- The text of an integer of 64 bits is read back, whatever ends it. -/
theorem readNumber_intText {i : Int} (lower : -(2 ^ 63) ≤ i) (upper : i < 2 ^ 64)
    (hrest : EndsNumber rest) :
    readNumber ((toString i).toList ++ rest) = .ok (.integer i, rest) := by
  have hspells := Number.spells_toDigits (by decide : 1 < 10) i.natAbs
  have hdigits := Number.isDecimalDigit_of_spells hspells
  have hvalue := Number.digitsToNat_of_spells hspells
  have hread (negative : Bool) (hinteger : integerOf negative (Nat.toDigits 10 i.natAbs) =
      .ok (.integer i)) := readNumber_digits hdigits Nat.toDigits_ne_nil
    (fun c more => Number.toDigits_ne_zero_cons) hinteger hrest
  rw [Number.toList_intText]
  split
  · have hi : (i.natAbs : Int) = i := by omega
    refine hread false ?_
    unfold integerOf
    dsimp only
    rw [hvalue, if_neg Bool.false_ne_true, if_pos (by change i.natAbs < 2 ^ 64; omega), hi]
  · have hi : -(i.natAbs : Int) = i := by omega
    refine hread true ?_
    unfold integerOf
    dsimp only
    rw [hvalue, if_pos rfl, if_neg (by omega), if_pos (by change i.natAbs ≤ 2 ^ 63; omega), hi]

/-! ## 3. Documents -/

/-- A document without fractions, whose integers fit 64 bits, with no more containers one in another
than `depth`. -/
inductive Readable : Nat → Document → Prop
  | null {depth : Nat} : Readable depth .null
  | bool {depth : Nat} (b : Bool) : Readable depth (.bool b)
  | integer {depth : Nat} {i : Int} (lower : -(2 ^ 63) ≤ i) (upper : i < 2 ^ 64) :
      Readable depth (.integer i)
  | string {depth : Nat} (s : String) : Readable depth (.string s)
  | list {depth : Nat} {items : List Document} (each : ∀ item ∈ items, Readable depth item) :
      Readable (depth + 1) (.list items)
  | map {depth : Nat} {pairs : List (String × Document)}
      (each : ∀ pair ∈ pairs, Readable depth pair.2) : Readable (depth + 1) (.map pairs)

variable {fuel depth : Nat} {d : Document}

theorem skipBlanks_cons {c : Char} (rest : List Char) (hc : isBlank c = false) :
    skipBlanks (c :: rest) = c :: rest := by
  unfold skipBlanks
  rw [List.dropWhile_cons_of_neg (by rw [hc]; exact Bool.false_ne_true)]

theorem endsNumber_cons {c : Char} (rest : List Char)
    (hc : Number.isDecimalDigit c = false ∧ c ≠ '.' ∧ c ≠ 'e' ∧ c ≠ 'E') :
    EndsNumber (c :: rest) := by
  rintro _ ⟨⟩
  exact hc

/-- An integer begins with a digit or a sign. -/
theorem exists_intText (i : Int) : ∃ c text, (toString i).toList = c :: text ∧
    (Number.isDecimalDigit c = true ∨ c = '-') := by
  have hdigits := Number.isDecimalDigit_of_spells (Number.spells_toDigits (by decide) i.natAbs)
  rw [Number.toList_intText]
  split
  · obtain ⟨c, text, hcons⟩ := List.exists_cons_of_ne_nil (Nat.toDigits_ne_nil (b := 10))
    exact ⟨c, text, hcons, .inl (hdigits c (hcons ▸ List.mem_cons_self))⟩
  · exact ⟨_, _, rfl, .inr rfl⟩

theorem ne_of_number {c special : Char} (hc : Number.isDecimalDigit c = true ∨ c = '-')
    (hspecial : Number.isDecimalDigit special = false ∧ special ≠ '-') : c ≠ special := by
  rintro rfl
  rcases hc with hc | hc
  · rw [hspecial.1] at hc
    cases hc
  · exact hspecial.2 hc

theorem isBlank_of_number {c : Char} (hc : Number.isDecimalDigit c = true ∨ c = '-') :
    isBlank c = false := by
  simp only [isBlank, Bool.or_eq_false_iff, beq_eq_false_iff_ne]
  exact ⟨⟨⟨ne_of_number hc (by decide), ne_of_number hc (by decide)⟩,
    ne_of_number hc (by decide)⟩, ne_of_number hc (by decide)⟩

theorem readValue_number {c : Char} (text : List Char)
    (hc : Number.isDecimalDigit c = true ∨ c = '-') :
    readValue (fuel + 1) depth (c :: text) = readNumber (c :: text) := by
  rw [readValue.eq_def]
  dsimp only
  rw [skipBlanks_cons text (isBlank_of_number hc)]
  split
  · contradiction
  all_goals first
    | rename_i heq; exact absurd (List.cons.inj heq).1 (ne_of_number hc (by decide))
    | rfl

theorem readValue_word (word : String) {meaning : Document}
    (hword : (word = "null" ∧ meaning = .null) ∨ (word = "true" ∧ meaning = .bool true) ∨
      (word = "false" ∧ meaning = .bool false)) :
    readValue (fuel + 1) depth (word.toList ++ rest) = .ok (meaning, rest) := by
  obtain ⟨rfl, rfl⟩ | ⟨rfl, rfl⟩ | ⟨rfl, rfl⟩ := hword <;> rfl

theorem writeString_append (s : String) (rest : List Char) :
    writeString s ++ rest = '"' :: (s.toList.flatMap escape ++ '"' :: rest) := by
  unfold writeString
  rw [List.cons_append, List.append_assoc, List.singleton_append]

/-- A written string is read back. -/
theorem readValue_string (s : String) :
    readValue (fuel + 1) depth (writeString s ++ rest) = .ok (.string s, rest) := by
  rw [writeString_append]
  change (readString (s.toList.flatMap escape ++ '"' :: rest)).map
    (fun found => (Document.string (String.ofList found.1), found.2)) = _
  rw [readString_flatMap_escape]
  exact congrArg (fun s => Except.ok (Document.string s, rest)) String.ofList_toList

/-- The text of a document begins neither with a blank nor with a closing bracket. -/
theorem exists_writeChars (readable : Readable depth d) :
    ∃ c text, writeChars d = c :: text ∧ isBlank c = false ∧ c ≠ ']' := by
  cases readable with
  | null => exact ⟨'n', _, rfl, rfl, by decide⟩
  | bool b => cases b with
    | false => exact ⟨'f', _, rfl, rfl, by decide⟩
    | true => exact ⟨'t', _, rfl, rfl, by decide⟩
  | @integer _ i =>
    obtain ⟨c, text, hcons, hc⟩ := exists_intText i
    exact ⟨c, text, hcons, isBlank_of_number hc, ne_of_number hc (by decide)⟩
  | string s => exact ⟨'"', _, rfl, rfl, by decide⟩
  | list => exact ⟨'[', _, by rw [writeChars], rfl, by decide⟩
  | map => exact ⟨'{', _, by rw [writeChars], rfl, by decide⟩

theorem join_cons {separator text : List Char} {texts : List (List Char)} (h : texts ≠ []) :
    join separator (text :: texts) = text ++ (separator ++ join separator texts) := by
  cases texts with
  | nil => exact absurd rfl h
  | cons => exact List.append_assoc _ _ _

theorem writeItems_ne_nil {items : List Document} (h : items ≠ []) : writeItems items ≠ [] := by
  cases items with
  | nil => exact absurd rfl h
  | cons => exact List.cons_ne_nil _ _

theorem writePairs_ne_nil {pairs : List (String × Document)} (h : pairs ≠ []) :
    writePairs pairs ≠ [] := by
  cases pairs with
  | nil => exact absurd rfl h
  | cons => exact List.cons_ne_nil _ _

theorem exists_join (separator text : List Char) (texts : List (List Char)) :
    ∃ tail, join separator (text :: texts) = text ++ tail := by
  by_cases h : texts = []
  · exact ⟨[], by rw [h, List.append_nil]; rfl⟩
  · exact ⟨_, join_cons h⟩

/-- A written list begins with neither a blank nor its closing bracket. -/
theorem exists_join_writeItems {items : List Document} (nonempty : items ≠ [])
    (readable : ∀ item ∈ items, Readable depth item) :
    ∃ c text, join [','] (writeItems items) = c :: text ∧ isBlank c = false ∧ c ≠ ']' := by
  cases items with
  | nil => exact absurd rfl nonempty
  | cons item more =>
    obtain ⟨c, text, hcons, hc⟩ := exists_writeChars (readable item List.mem_cons_self)
    obtain ⟨tail, hjoin⟩ := exists_join [','] (writeChars item) (writeItems more)
    exact ⟨c, text ++ tail, by rw [writeItems, hjoin, hcons, List.cons_append], hc⟩

theorem exists_join_writePairs {pairs : List (String × Document)} (nonempty : pairs ≠ []) :
    ∃ text, join [','] (writePairs pairs) = '"' :: text := by
  cases pairs with
  | nil => exact absurd rfl nonempty
  | cons pair more =>
    obtain ⟨tail, hjoin⟩ := exists_join [','] (writeString pair.1 ++ ':' :: writeChars pair.2)
      (writePairs more)
    exact ⟨_, hjoin.trans (by rw [List.append_assoc, writeString_append])⟩

theorem readValue_bracket (text : List Char) :
    readValue (fuel + 1) (depth + 1) ('[' :: text) =
      match skipBlanks text with
      | ']' :: rest => .ok (.list [], rest)
      | rest => (readItems fuel depth rest).map fun (items, rest) => (.list items, rest) :=
  rfl

/-- A list is read item by item, if it is not empty. -/
theorem readValue_list {items : List Document} {c : Char} {text : List Char}
    (hblank : isBlank c = false) (hclosing : c ≠ ']')
    (hitems : readItems fuel depth (c :: text) = .ok (items, rest)) :
    readValue (fuel + 1) (depth + 1) ('[' :: c :: text) = .ok (.list items, rest) := by
  rw [readValue_bracket, skipBlanks_cons text hblank]
  split
  · rename_i heq
    exact absurd (List.cons.inj heq).1 hclosing
  · rw [hitems]
    rfl

/-- A mapping is read pair by pair, if it is not empty. -/
theorem readValue_map {pairs : List (String × Document)} {text : List Char}
    (hpairs : readPairs fuel depth ('"' :: text) = .ok (pairs, rest)) :
    readValue (fuel + 1) (depth + 1) ('\x7b' :: '"' :: text) = .ok (.map pairs, rest) := by
  change (readPairs fuel depth ('"' :: text)).map
    (fun found => (Document.map found.1, found.2)) = _
  rw [hpairs]
  rfl

theorem readItems_last {item : Document} {text : List Char}
    (hitem : readValue fuel depth text = .ok (item, ']' :: rest)) :
    readItems (fuel + 1) depth text = .ok ([item], rest) := by
  rw [readItems.eq_def]
  dsimp only
  rw [hitem]
  rfl

/-- An item before a comma is put in front of the items behind it. -/
theorem readItems_more {item : Document} {items : List Document} {text text' : List Char}
    (hitem : readValue fuel depth text = .ok (item, ',' :: text'))
    (hitems : readItems fuel depth text' = .ok (items, rest)) :
    readItems (fuel + 1) depth text = .ok (item :: items, rest) := by
  rw [readItems.eq_def]
  dsimp only
  rw [hitem]
  change (readItems fuel depth text').map (fun found => (item :: found.1, found.2)) = _
  rw [hitems]
  rfl

/-- A pair is a key, a colon and a value. -/
theorem readPairs_key (key : String) (text : List Char) :
    readPairs (fuel + 1) depth (writeString key ++ ':' :: text) =
      match readValue fuel depth text with
      | .error e => .error e
      | .ok (value, rest) =>
        match skipBlanks rest with
        | ',' :: rest =>
          (readPairs fuel depth rest).map fun (pairs, rest) => ((key, value) :: pairs, rest)
        | '\x7d' :: rest => .ok ([(key, value)], rest)
        | [] => .error .endOfText
        | _ => .error .unexpectedCharacter := by
  rw [writeString_append, readPairs.eq_def]
  dsimp only
  split
  · rename_i heq
    rw [skipBlanks_cons _ rfl] at heq
    cases heq
    rw [readString_flatMap_escape]
    dsimp only
    rw [String.ofList_toList]
    rfl
  · rename_i hquote
    exact (hquote _ (skipBlanks_cons _ rfl)).elim

theorem readPairs_last {key : String} {value : Document} {text : List Char}
    (hvalue : readValue fuel depth text = .ok (value, '\x7d' :: rest)) :
    readPairs (fuel + 1) depth (writeString key ++ ':' :: text) = .ok ([(key, value)], rest) := by
  rw [readPairs_key, hvalue]
  rfl

/-- A pair before a comma is put in front of the pairs behind it. -/
theorem readPairs_more {key : String} {value : Document} {pairs : List (String × Document)}
    {text text' : List Char} (hvalue : readValue fuel depth text = .ok (value, ',' :: text'))
    (hpairs : readPairs fuel depth text' = .ok (pairs, rest)) :
    readPairs (fuel + 1) depth (writeString key ++ ':' :: text) =
      .ok ((key, value) :: pairs, rest) := by
  rw [readPairs_key, hvalue]
  change (readPairs fuel depth text').map (fun found => ((key, value) :: found.1, found.2)) = _
  rw [hpairs]
  rfl

mutual

/-- The text of a document is read as that document, whatever follows it. -/
theorem readValue_writeChars (d : Document) {depth fuel : Nat} {rest : List Char}
    (readable : Readable depth d) (hfuel : 2 * (writeChars d).length ≤ fuel)
    (hrest : EndsNumber rest) :
    readValue fuel depth (writeChars d ++ rest) = .ok (d, rest) := by
  -- A value and the list that it is in take a step each, and have a character each at least.
  obtain ⟨c, text, hcons, -, -⟩ := exists_writeChars readable
  obtain ⟨fuel, rfl⟩ : ∃ f, fuel = f + 1 := by
    rw [hcons, List.length_cons] at hfuel
    exact Nat.exists_eq_succ_of_ne_zero (by omega)
  cases d with
  | null => exact readValue_word "null" (.inl ⟨rfl, rfl⟩)
  | bool b => cases b with
    | false => exact readValue_word "false" (.inr (.inr ⟨rfl, rfl⟩))
    | true => exact readValue_word "true" (.inr (.inl ⟨rfl, rfl⟩))
  | integer i =>
    cases readable with
    | integer lower upper =>
      obtain ⟨c, text, hcons, hc⟩ := exists_intText i
      have hread := readNumber_intText lower upper hrest
      change readValue _ _ ((toString i).toList ++ rest) = _
      rw [hcons, List.cons_append] at hread ⊢
      rw [readValue_number _ hc, hread]
  | real n => cases readable
  | string s => exact readValue_string s
  | list items =>
    cases readable with
    | @list depth _ each =>
      rw [writeChars] at hfuel ⊢
      rw [List.length_cons, List.length_append, List.length_singleton] at hfuel
      rw [List.cons_append, List.append_assoc, List.singleton_append]
      by_cases hitems : items = []
      · subst hitems
        rfl
      · obtain ⟨c, text, hjoin, hblank, hclosing⟩ := exists_join_writeItems hitems each
        have hread : readItems fuel depth (join [','] (writeItems items) ++ ']' :: rest) =
            .ok (items, rest) := readItems_writeItems items hitems each (by omega)
        rw [hjoin, List.cons_append] at hread ⊢
        exact readValue_list hblank hclosing hread
  | map pairs =>
    cases readable with
    | @map depth _ each =>
      rw [writeChars] at hfuel ⊢
      rw [List.length_cons, List.length_append, List.length_singleton] at hfuel
      rw [List.cons_append, List.append_assoc, List.singleton_append]
      by_cases hpairs : pairs = []
      · subst hpairs
        rfl
      · obtain ⟨text, hjoin⟩ := exists_join_writePairs hpairs
        have hread : readPairs fuel depth (join [','] (writePairs pairs) ++ '\x7d' :: rest) =
            .ok (pairs, rest) := readPairs_writePairs pairs hpairs each (by omega)
        rw [hjoin, List.cons_append] at hread ⊢
        exact readValue_map hread

/-- The texts of items with commas between them are read as these items. -/
theorem readItems_writeItems (items : List Document) {depth fuel : Nat} {rest : List Char}
    (nonempty : items ≠ []) (readable : ∀ item ∈ items, Readable depth item)
    (hfuel : 2 * (join [','] (writeItems items)).length < fuel) :
    readItems fuel depth (join [','] (writeItems items) ++ ']' :: rest) = .ok (items, rest) := by
  cases items with
  | nil => exact absurd rfl nonempty
  | cons item more =>
    obtain ⟨fuel, rfl⟩ := Nat.exists_eq_succ_of_ne_zero (Nat.ne_of_gt (Nat.zero_lt_of_lt hfuel))
    obtain ⟨hitem, hmore⟩ := List.forall_mem_cons.mp readable
    rw [writeItems] at hfuel ⊢
    by_cases hlast : more = []
    · subst hlast
      change 2 * (writeChars item).length < fuel + 1 at hfuel
      exact readItems_last (readValue_writeChars item hitem (by omega)
        (endsNumber_cons rest (by decide)))
    · rw [join_cons (writeItems_ne_nil hlast)] at hfuel ⊢
      rw [List.length_append, List.length_append, List.length_singleton] at hfuel
      rw [List.append_assoc]
      exact readItems_more (readValue_writeChars item hitem (by omega)
        (endsNumber_cons _ (by decide))) (readItems_writeItems more hlast hmore (by omega))

/-- The texts of pairs with commas between them are read as these pairs. -/
theorem readPairs_writePairs (pairs : List (String × Document)) {depth fuel : Nat}
    {rest : List Char} (nonempty : pairs ≠ []) (readable : ∀ pair ∈ pairs, Readable depth pair.2)
    (hfuel : 2 * (join [','] (writePairs pairs)).length < fuel) :
    readPairs fuel depth (join [','] (writePairs pairs) ++ '\x7d' :: rest) = .ok (pairs, rest) := by
  cases pairs with
  | nil => exact absurd rfl nonempty
  | cons pair more =>
    obtain ⟨key, value⟩ := pair
    obtain ⟨fuel, rfl⟩ := Nat.exists_eq_succ_of_ne_zero (Nat.ne_of_gt (Nat.zero_lt_of_lt hfuel))
    obtain ⟨hvalue, hmore⟩ := List.forall_mem_cons.mp readable
    rw [writePairs] at hfuel ⊢
    by_cases hlast : more = []
    · subst hlast
      change 2 * (writeString key ++ ':' :: writeChars value).length < fuel + 1 at hfuel
      rw [List.length_append, List.length_cons] at hfuel
      change readPairs _ _ ((writeString key ++ ':' :: writeChars value) ++ '\x7d' :: rest) = _
      rw [List.append_assoc, List.cons_append]
      exact readPairs_last (readValue_writeChars value hvalue (by omega)
        (endsNumber_cons rest (by decide)))
    · rw [join_cons (writePairs_ne_nil hlast)] at hfuel ⊢
      rw [List.length_append, List.length_append, List.length_append, List.length_cons,
        List.length_singleton] at hfuel
      rw [List.append_assoc, List.append_assoc, List.cons_append]
      exact readPairs_more (readValue_writeChars value hvalue (by omega)
        (endsNumber_cons _ (by decide))) (readPairs_writePairs more hlast hmore (by omega))

end

/-- The text of a document that is not nested too deep is read as that document. -/
theorem read_write (readable : Readable maxNesting d) : read (write d) = .ok d := by
  have hend : EndsNumber [] := fun c hc => nomatch hc
  have hread := readValue_writeChars d readable (Nat.le_add_right _ 2) hend
  unfold read write
  rw [String.toList_ofList]
  rw [List.append_nil] at hread
  dsimp only [bind, Except.bind]
  rw [hread]
  rfl

end Conform.Json

namespace Conform.Number

variable {n : Number}

/-- Exact integers fit 64 bits. -/
theorem truncate_bounds (h : n.isExactInteger = true) :
    -(2 ^ 53) < n.truncate ∧ n.truncate < 2 ^ 53 := by
  cases n with
  | nan | infinite => cases h
  | finite negative m =>
    obtain ⟨-, hbound⟩ := Bool.and_eq_true_iff.mp h
    have hless : m.units / one < Nat.pow 2 53 :=
      (Nat.div_lt_iff_lt_mul one_pos).mpr (of_decide_eq_true hbound)
    change -(2 ^ 53) < (if negative then -((m.units / one : Nat) : Int) else (m.units / one : Nat)) ∧
      (if negative then -((m.units / one : Nat) : Int) else (m.units / one : Nat)) < 2 ^ 53
    generalize m.units / one = k at hless ⊢
    change k < 2 ^ 53 at hless
    split <;> omega

/-- An exact integer is the number of its integer part, but for the sign of zero. -/
theorem eqv_ofInt_truncate (h : n.isExactInteger = true) : n.eqv (ofInt n.truncate) = true := by
  cases n with
  | nan | infinite => cases h
  | finite negative m =>
    obtain ⟨hintegral, -⟩ := Bool.and_eq_true_iff.mp h
    have hunits : (truncate (.finite negative m)).natAbs * one = m.units := by
      have habs : (truncate (.finite negative m)).natAbs = m.units / one := by
        unfold truncate
        dsimp only
        generalize m.units / one = k
        split <;> omega
      rw [habs, Nat.div_mul_cancel (Nat.dvd_of_mod_eq_zero (beq_iff_eq.mp hintegral))]
    have hnearest : Magnitude.nearest m.units 1 = m.units :=
      Magnitude.nearest_of_spacing_dvd m.representable.1
    unfold ofInt ofUnits
    simp only [hunits, hnearest]
    rw [dif_pos m.representable.2]
    refine beq_iff_eq.mpr ?_
    by_cases hzero : m.units = 0
    · -- Zero has no sign as an integer.
      unfold signedUnits
      rw [hzero]
      split <;> split <;> rfl
    · have hsign : decide (truncate (.finite negative m) < 0) = negative := by
        have hpos : truncate (.finite negative m) ≠ 0 := by
          intro htruncate
          rw [htruncate, Int.natAbs_zero, Nat.zero_mul] at hunits
          exact hzero hunits.symm
        cases negative with
        | false => exact decide_eq_false (Int.not_lt.mpr (Int.natCast_nonneg _))
        | true =>
          refine decide_eq_true (Int.lt_iff_le_and_ne.mpr ⟨?_, hpos⟩)
          exact Int.neg_nonpos_of_nonneg (Int.natCast_nonneg _)
      rw [hsign]

end Conform.Number

namespace Conform.Value

/-! ## 4. Values -/

/-- A value of the kinds that JSON has, with exact integers for its numbers, distinct keys in its
mappings, and no more containers one in another than `depth`. -/
inductive Portable : Nat → Value → Prop
  | null {depth : Nat} : Portable depth .null
  | bool {depth : Nat} (b : Bool) : Portable depth (.bool b)
  | number {depth : Nat} {n : Number} (integral : n.isExactInteger = true) :
      Portable depth (.number n)
  | string {depth : Nat} (s : String) : Portable depth (.string s)
  | list {depth : Nat} {items : List Value} (each : ∀ item ∈ items, Portable depth item) :
      Portable (depth + 1) (.list items)
  | map {depth : Nat} {entries : Entries Value} (distinct : entries.keys.Nodup)
      (each : ∀ e ∈ entries, Portable depth e.2) : Portable (depth + 1) (.map entries)

mutual

def keyOrders : Value → List (List String)
  | .list items => keyOrdersOfItems items
  | .map entries => Entries.keys entries :: keyOrdersOfEntries entries
  | _ => []

def keyOrdersOfItems : List Value → List (List String)
  | [] => []
  | item :: rest => keyOrders item ++ keyOrdersOfItems rest

def keyOrdersOfEntries : List (String × Value) → List (List String)
  | [] => []
  | (_, value) :: rest => keyOrders value ++ keyOrdersOfEntries rest

end

variable {depth : Nat} {v : Value}

/-- A value of these kinds is written as a document that is read. -/
theorem Portable.readable (h : v.Portable depth) : Json.Readable depth v.toDocument := by
  induction h with
  | null => exact .null
  | bool b => exact .bool b
  | @number _ n integral =>
    obtain ⟨lower, upper⟩ := Number.truncate_bounds integral
    rw [toDocument, Document.ofNumber, if_pos integral]
    exact .integer (by omega) (by omega)
  | string s => exact .string s
  | list _ ih =>
    rw [toDocument, toDocuments_eq]
    exact .list (List.forall_mem_map.mpr ih)
  | map _ _ ih =>
    rw [toDocument, toDocumentEntries_eq]
    exact .map (List.forall_mem_map.mpr ih)

theorem ofDocuments_eq (items : List Document) : ofDocuments items = items.map ofDocument := by
  induction items with
  | nil => rfl
  | cons item rest ih => rw [ofDocuments, ih, List.map_cons]

theorem ofDocumentPairs_eq (pairs : List (String × Document)) :
    ofDocumentPairs pairs = pairs.map fun pair => (pair.1, ofDocument pair.2) := by
  induction pairs with
  | nil => rfl
  | cons pair rest ih => rw [ofDocumentPairs, ih, List.map_cons]

theorem keyOrdersOfItems_eq (items : List Value) :
    keyOrdersOfItems items = items.flatMap keyOrders := by
  induction items with
  | nil => rfl
  | cons item rest ih => rw [keyOrdersOfItems, ih, List.flatMap_cons]

theorem keyOrdersOfEntries_eq (entries : Entries Value) :
    keyOrdersOfEntries entries = entries.flatMap fun e => e.2.keyOrders := by
  induction entries with
  | nil => rfl
  | cons e rest ih => rw [keyOrdersOfEntries, ih, List.flatMap_cons]

/-- The value of the document that a value is written as is the same, with its keys in order. -/
theorem Portable.same (h : v.Portable depth) :
    v.Same (ofDocument v.toDocument) ∧ (ofDocument v.toDocument).keyOrders = v.keyOrders := by
  induction h with
  | null => exact ⟨.null, rfl⟩
  | bool b => exact ⟨.bool b, rfl⟩
  | @number _ n integral =>
    have hkeys (m : Number) : (Value.number m).keyOrders = [] := rfl
    rw [toDocument, Document.ofNumber, if_pos integral, ofDocument, hkeys, hkeys]
    exact ⟨.number (Number.eqv_ofInt_truncate integral), rfl⟩
  | string s => exact ⟨.string s, rfl⟩
  | @list _ items _ ih =>
    rw [toDocument, ofDocument, toDocuments_eq, ofDocuments_eq, List.map_map]
    refine ⟨.list ?_, ?_⟩
    · rw [List.forall₂_map_right_iff, List.forall₂_same]
      exact fun item hitem => (ih item hitem).1
    · rw [keyOrders, keyOrders, keyOrdersOfItems_eq, keyOrdersOfItems_eq, List.flatMap_map]
      exact List.flatMap_congr fun item hitem => (ih item hitem).2
  | @map _ entries distinct _ ih =>
    have hkeys : Entries.keys (entries.map fun e => (e.1, ofDocument e.2.toDocument)) =
        entries.keys := Entries.keys_map _
    have hback : ofDocument (Value.map entries).toDocument =
        .map (entries.map fun e => (e.1, ofDocument e.2.toDocument)) := by
      rw [toDocument, ofDocument, toDocumentEntries_eq, ofDocumentPairs_eq, List.map_map]
      exact congrArg Value.map (Entries.ofList_eq_self (hkeys ▸ distinct))
    rw [hback]
    refine ⟨.map distinct (InSomeOrder.of_forall₂ ?_), ?_⟩
    · rw [List.forall₂_map_right_iff, List.forall₂_same]
      exact fun e he => ⟨(ih e he).1⟩
    · rw [keyOrders, keyOrders, keyOrdersOfEntries_eq, keyOrdersOfEntries_eq, List.flatMap_map,
        hkeys]
      exact congrArg _ (List.flatMap_congr fun e he => (ih e he).2)

/-- A value of the kinds that JSON has, nested less than 128 levels deep, is read back from its
text: an equal value, with the keys of every mapping in the same order. -/
theorem toJson_preserves (v : Value) (portable : v.Portable 127) :
    ∃ back, (Json.read v.toJson).map ofDocument = .ok back ∧ v.eqv back = true ∧
      back.keyOrders = v.keyOrders := by
  obtain ⟨hsame, hkeys⟩ := portable.same
  refine ⟨_, ?_, hsame.eqv, hkeys⟩
  rw [toJson, Json.read_write portable.readable]
  rfl

/-- A text with an escape, minus zero, and keys that are not in alphabetic order. -/
theorem toJson_preserves_pair :
    ∃ back, (Json.read (map [("b", .list [.number (.signedZero true), .string "\"\n"]),
        ("a", .null)]).toJson).map ofDocument = .ok back ∧
      (map [("b", .list [.number (.signedZero true), .string "\"\n"]), ("a", .null)]).eqv back =
        true ∧
      back.keyOrders = [["b", "a"]] := by
  refine toJson_preserves _ (.map (by decide) fun e he => ?_)
  rcases List.mem_pair.mp he with rfl | rfl
  · refine .list fun item hitem => ?_
    rcases List.mem_pair.mp hitem with rfl | rfl
    · exact .number (by decide +kernel)
    · exact .string _
  · exact .null

end Conform.Value
