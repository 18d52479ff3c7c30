import Conform.Proofs.KeyTexts
import Conform.Proofs.Numerals
import Conform.Yaml.Writer

/-!
# Plain texts — truth values and numbers as plain scalars

Truth values and numbers are written so that a plain scalar may hold them (`Style.allowsPlain`), and
a plain scalar with their text means what was written.
-/

namespace Conform.Yaml

open Number Data

/-! ## 1. Texts without blanks and indicators -/

namespace Style

def isSimple (c : Char) : Bool := isWord c || c == '.' || c == '+'

def isTelling (c : Char) : Bool :=
  isLineEnd c || isBlank c || !isPrintable c || c == ':' || c == '?' ||
    "#,[]\x7b\x7d&*!|>'\"%@`".toList.contains c

variable {text : List Char} {c : Char}

theorem isTelling_eq_false_iff : isTelling c = false ↔ isLineEnd c = false ∧ isBlank c = false ∧
    isPrintable c = true ∧ c ≠ ':' ∧ c ≠ '?' ∧
      "#,[]\x7b\x7d&*!|>'\"%@`".toList.contains c = false := by
  simp [isTelling, and_assoc]

theorem lt_of_isAlphanum (h : c.isAlphanum = true) : c.toNat < 128 := by
  have hupper (h : c.isUpper = true) : c.toNat ≤ 90 :=
    UInt32.le_iff_toNat_le.mp (of_decide_eq_true h).2
  have hlower (h : c.isLower = true) : c.toNat ≤ 122 :=
    UInt32.le_iff_toNat_le.mp (of_decide_eq_true (Bool.and_eq_true_iff.mp h).2)
  have hdigit (h : c.isDigit = true) : c.toNat ≤ 57 := (Char.isDigit_iff_toNat.mp h).2
  rcases Bool.or_eq_true_iff.mp h with h | h
  · rcases Bool.or_eq_true_iff.mp h with h | h
    · exact (hupper h).trans_lt (by decide)
    · exact (hlower h).trans_lt (by decide)
  · exact (hdigit h).trans_lt (by decide)

/-- Letters, digits and signs tell nothing about a scalar. -/
theorem isTelling_of_isSimple (h : isSimple c = true) : isTelling c = false := by
  have hfirst : ∀ code < 128, isSimple (Char.ofNat code) = true →
      isTelling (Char.ofNat code) = false := by
    decide
  have hcode : c.toNat < 128 := by
    unfold isSimple isWord at h
    simp only [Bool.or_eq_true, beq_iff_eq] at h
    rcases h with (((h | rfl) | rfl) | rfl) | rfl
    · exact lt_of_isAlphanum h
    all_goals decide
  have hc := hfirst c.toNat hcode
  rw [Char.ofNat_toNat] at hc
  exact hc h

theorem hasNeighbours_eq_false {test : Char → Char → Bool}
    (h : ∀ a ∈ text, ∀ b, test a b = false) : hasNeighbours test text = false := by
  induction text with
  | nil => rfl
  | cons a rest ih =>
    cases rest with
    | nil => rfl
    | cons b rest =>
      unfold hasNeighbours
      rw [h a List.mem_cons_self b, Bool.false_or]
      exact ih fun a ha => h a (List.mem_cons_of_mem _ ha)

/-- Where no character is telling, there is no indicator. -/
theorem hasIndicator_eq_false (h : ∀ c ∈ text, isTelling c = false) :
    hasIndicator text = false := by
  induction text with
  | nil => rfl
  | cons c rest ih =>
    have hc := isTelling_eq_false_iff.mp (h c List.mem_cons_self)
    unfold hasIndicator
    rw [ih fun d hd => h d (List.mem_cons_of_mem _ hd)]
    simp [hc]

/-- A text of simple characters may be written plain, unless it begins like a mark. -/
theorem allowsPlain_of_isSimple {rest : List Char} (hsimple : ∀ d ∈ c :: rest, isSimple d = true)
    (hmark : c = '-' ∨ c = '.' → ∃ d more, rest = d :: more ∧ d ≠ c) :
    allowsPlain (c :: rest) = true := by
  -- No test of the writer is sensitive to a simple character, but for marks at the beginning.
  have htelling : ∀ d ∈ c :: rest, isTelling d = false := fun d hd =>
    isTelling_of_isSimple (hsimple d hd)
  have hspace : ∀ d ∈ c :: rest, d ≠ ' ' ∧ isLineEnd d = false := by
    intro d hd
    obtain ⟨hend, hblank, -⟩ := isTelling_eq_false_iff.mp (htelling d hd)
    refine ⟨?_, hend⟩
    rintro rfl
    cases hblank
  have htight : isTight (c :: rest) = true := by
    have hlast := List.getLast?_eq_some_getLast (List.cons_ne_nil c rest)
    have hmem := List.getLast_mem (List.cons_ne_nil c rest)
    unfold isTight
    rw [hlast]
    simp [hspace c List.mem_cons_self, hspace _ hmem]
  have hescapes : needsEscapes (c :: rest) = false := by
    unfold needsEscapes
    rw [Bool.or_eq_false_iff, List.any_eq_false]
    constructor
    · intro d hd
      simp [(isTelling_eq_false_iff.mp (htelling d hd)).2.2.1]
    · apply hasNeighbours_eq_false
      intro a ha b
      simp [(hspace a ha).1]
  have hbegins : beginsOtherwise (c :: rest) = false := by
    obtain ⟨-, -, -, -, hquestion, hindicator⟩ :=
      isTelling_eq_false_iff.mp (htelling c List.mem_cons_self)
    unfold beginsOtherwise
    simp only [hindicator, Bool.false_or]
    by_cases hc : c = '-' ∨ c = '.'
    · obtain ⟨d, more, rfl, hd⟩ := hmark hc
      -- A mark counts only before the end of a word.
      have hends : endsWord (d :: more) = false := by
        obtain ⟨hend, hblank, -⟩ := isTelling_eq_false_iff.mp (htelling d (by simp))
        unfold isLineEnd at hend
        unfold endsWord
        simp_all
      rcases hc with rfl | rfl
      · simp [List.isPrefixOf, hends, hspace d (by simp), Ne.symm hd]
      · simp [List.isPrefixOf, Ne.symm hd]
    · rw [not_or] at hc
      simp [List.isPrefixOf, hquestion, hc, Ne.symm hc.1, Ne.symm hc.2]
  have hend : (c :: rest).any isLineEnd = false := by
    rw [List.any_eq_false]
    intro d hd
    simp [(hspace d hd).2]
  unfold allowsPlain
  rw [htight, hend, hescapes, hbegins, hasIndicator_eq_false htelling]
  rfl

end Style

/-! ## 2. Integers -/

theorem isSimple_of_isDecimalDigit {c : Char} (h : isDecimalDigit c = true) :
    Style.isSimple c = true := by
  obtain ⟨value, hvalue⟩ := isDecimalDigit_iff.mp h
  have hdigit : ∀ v < 10, Style.isSimple (Nat.digitChar v) = true ∧
      Style.isSimple (Nat.digitChar v).toUpper = true := by
    decide
  obtain ⟨hlt, rfl | rfl⟩ := hvalue
  · exact (hdigit value hlt).1
  · exact (hdigit value hlt).2

/-- The text of an integer may be written plain. -/
theorem allowsPlain_intText (i : Int) : Style.allowsPlain (toString i).toList = true := by
  have hspells := isDecimalDigit_of_spells (spells_toDigits (by decide : 1 < 10) i.natAbs)
  have hsimple : ∀ c ∈ (toString i).toList, Style.isSimple c = true := by
    intro c hc
    rcases intText_mem i c hc with hdigit | rfl
    · exact isSimple_of_isDecimalDigit hdigit
    · rfl
  rw [toList_intText] at hsimple ⊢
  obtain ⟨d, rest, hdigits⟩ :=
    List.exists_cons_of_ne_nil (Nat.toDigits_ne_nil : Nat.toDigits 10 i.natAbs ≠ [])
  have hd : isDecimalDigit d = true := hspells d (by rw [hdigits]; exact List.mem_cons_self)
  rw [hdigits] at hsimple ⊢
  split at hsimple
  · rw [if_pos ‹_›]
    apply Style.allowsPlain_of_isSimple hsimple
    rintro (rfl | rfl) <;> cases hd
  · rw [if_neg ‹_›]
    apply Style.allowsPlain_of_isSimple hsimple
    rintro -
    refine ⟨d, rest, rfl, ?_⟩
    rintro rfl
    cases hd

theorem digits?_toDigits (n : Nat) : Plain.digits? (Nat.toDigits 10 n) = some n := by
  have hspells := spells_toDigits (by decide : 1 < 10) n
  have hpadded : Plain.isZeroPadded (Nat.toDigits 10 n) = false := by
    have hsplit : splitSign (Nat.toDigits 10 n) = (false, Nat.toDigits 10 n) :=
      splitSign_append .none fun c hc =>
        ne_sign_of_digit (isDecimalDigit_of_spells hspells c (List.mem_of_head? hc))
    unfold Plain.isZeroPadded
    rw [hsplit]
    split
    · rename_i digits hdigits
      cases digits with
      | nil => rfl
      | cons d digits => exact absurd hdigits toDigits_ne_zero_cons
    · rfl
  unfold Plain.digits?
  split
  · exact absurd ‹_› toDigits_ne_zero_cons
  · exact absurd ‹_› toDigits_ne_zero_cons
  · exact absurd ‹_› toDigits_ne_zero_cons
  · rw [hpadded, if_neg Bool.false_ne_true]
    exact radixNat?_of_spells (by decide) Nat.toDigits_ne_nil hspells

theorem int?_intText (i : Int) : Plain.int? (toString i).toList = some i := by
  have hdigit := isDecimalDigit_of_spells (spells_toDigits (by decide : 1 < 10) i.natAbs)
  rw [toList_intText]
  split
  · have hvalue : (i.natAbs : Int) = i := Int.natAbs_of_nonneg ‹_›
    unfold Plain.int?
    split
    · rename_i heq
      exact absurd (hdigit '-' (heq ▸ List.mem_cons_self)) (by decide)
    · rename_i heq
      exact absurd (hdigit '+' (heq ▸ List.mem_cons_self)) (by decide)
    · rw [digits?_toDigits]
      exact congrArg some hvalue
  · have hvalue : -(i.natAbs : Int) = i := by omega
    show Option.map (fun n => -n) (do
      let n ← Plain.digits? (Nat.toDigits 10 i.natAbs)
      pure (n : Int)) = some i
    rw [digits?_toDigits]
    exact congrArg some hvalue

/-- The words of plain scalars are no texts of integers. -/
theorem intText_ne_word {word : String} (h : Plain.int? word.toList = none) (i : Int) :
    (toString i == word) = false := by
  rw [beq_eq_false_iff_ne]
  rintro rfl
  rw [int?_intText] at h
  cases h

/-- The text of an integer of 64 bits, written plain, means the integer. -/
theorem meaning_intText {i : Int} (h : Plain.fitsWord i = true) :
    Plain.meaning (toString i) = .integer i := by
  have hgreat : Plain.fitsDoubleWord i = true := by
    have hlower : Nat.pow 2 63 ≤ Nat.pow 2 127 := Nat.pow_le_pow_right (by decide) (by decide)
    have hupper : Nat.pow 2 64 ≤ Nat.pow 2 128 := Nat.pow_le_pow_right (by decide) (by decide)
    simp only [Plain.fitsWord, Plain.fitsDoubleWord, Bool.and_eq_true, decide_eq_true_eq] at h ⊢
    omega
  have hempty : (toString i).toList.isEmpty = false := by
    rw [toList_intText]
    split
    · exact List.isEmpty_eq_false_iff.mpr Nat.toDigits_ne_nil
    · rfl
  have hnull : Plain.isNull (toString i) = false := by
    unfold Plain.isNull
    rw [intText_ne_word rfl, intText_ne_word rfl, intText_ne_word rfl, intText_ne_word rfl]
    rfl
  have hbool : Plain.bool? (toString i) = none := by
    unfold Plain.bool?
    rw [intText_ne_word rfl, intText_ne_word rfl, intText_ne_word rfl, intText_ne_word rfl,
      intText_ne_word rfl, intText_ne_word rfl]
    rfl
  unfold Plain.meaning
  dsimp only
  rw [hempty, hnull, hbool, int?_intText, Option.filter_some, hgreat, if_pos rfl]
  dsimp only
  rw [if_pos h]
  rfl

/-! ## 3. Decimals -/

section Decimals

variable {text : List Char} {negative : Bool} {n : Nat} {e : Int}

theorem isSimple_of_isDecimal (h : IsDecimal text negative n e) :
    ∀ c ∈ text, Style.isSimple c = true := by
  obtain ⟨signed, pointed, -, spelled, scaled⟩ := h
  have hdigits : ∀ {digits : List Char} {m : Nat}, Spells 10 digits m →
      ∀ c ∈ digits, Style.isSimple c = true := fun h c hc =>
    isSimple_of_isDecimalDigit (isDecimalDigit_of_spells h c hc)
  have hsign : ∀ {sign : List Char} {negative : Bool}, IsSign sign negative →
      ∀ c ∈ sign, Style.isSimple c = true := by
    intro sign negative h
    cases h with
    | none => exact fun c hc => absurd hc List.not_mem_nil
    | plus | minus => exact List.forall_mem_singleton.mpr rfl
  have hmantissa := hdigits spelled
  rw [List.forall_mem_append, List.forall_mem_append]
  refine ⟨hsign signed, ?_, ?_⟩
  · cases pointed with
    | whole => rwa [List.append_nil] at hmantissa
    | pointed =>
      rw [List.forall_mem_append] at hmantissa ⊢
      exact ⟨hmantissa.1, List.forall_mem_cons.mpr ⟨rfl, hmantissa.2⟩⟩
  · cases scaled with
    | none => exact fun c hc => absurd hc List.not_mem_nil
    | power marked signed _ spelled =>
      rw [List.forall_mem_cons, List.forall_mem_append]
      refine ⟨?_, hsign signed, hdigits spelled⟩
      rcases marked with rfl | rfl <;> rfl

/-- A mantissa begins with a digit, or with a point and a digit. -/
theorem exists_mantissa {mantissa whole fraction : List Char} (h : IsMantissa mantissa whole fraction)
    (nonempty : whole ++ fraction ≠ []) (hdigits : ∀ c ∈ whole ++ fraction, isDecimalDigit c) :
    ∃ c rest, mantissa = c :: rest ∧
      (isDecimalDigit c = true ∨ c = '.' ∧ ∃ d more, rest = d :: more ∧ isDecimalDigit d = true) := by
  cases whole with
  | cons c whole =>
    have hc : isDecimalDigit c = true := hdigits c List.mem_cons_self
    cases h with
    | whole => exact ⟨c, whole, rfl, .inl hc⟩
    | pointed => exact ⟨c, _, rfl, .inl hc⟩
  | nil =>
    cases h with
    | whole => exact absurd rfl nonempty
    | pointed =>
      obtain ⟨d, more, rfl⟩ := List.exists_cons_of_ne_nil nonempty
      exact ⟨'.', _, rfl, .inr ⟨rfl, d, more, rfl, hdigits d List.mem_cons_self⟩⟩

/-- What begins like a mantissa, with or without a sign, begins no mark. -/
theorem exists_decimal (h : IsDecimal text negative n e) : ∃ c rest, text = c :: rest ∧
    (c = '-' ∨ c = '.' → ∃ d more, rest = d :: more ∧ d ≠ c) := by
  obtain ⟨signed, pointed, nonempty, spelled, -⟩ := h
  obtain ⟨c, rest, rfl, hc⟩ := exists_mantissa pointed nonempty (isDecimalDigit_of_spells spelled)
  cases signed with
  | plus => exact ⟨'+', _, rfl, by simp⟩
  | minus =>
    refine ⟨'-', _, rfl, fun _ => ⟨c, _, rfl, ?_⟩⟩
    rintro rfl
    simp [isDecimalDigit] at hc
  | none =>
    refine ⟨c, _, rfl, fun hmark => ?_⟩
    rcases hc with hdigit | ⟨rfl, d, more, rfl, hd⟩
    · rcases hmark with rfl | rfl <;> cases hdigit
    · refine ⟨d, _, rfl, ?_⟩
      rintro rfl
      cases hd

theorem allowsPlain_of_isDecimal (h : IsDecimal text negative n e) :
    Style.allowsPlain text = true := by
  have hsimple := isSimple_of_isDecimal h
  obtain ⟨c, rest, rfl, hmark⟩ := exists_decimal h
  exact Style.allowsPlain_of_isSimple hsimple hmark

/-- A point or the letter of an exponent is no decimal digit. -/
theorem radixNat?_eq_none {digits : List Char} (h : ∃ c ∈ digits, c = '.' ∨ c = 'e') :
    radixNat? 10 digits = none := by
  cases hread : radixNat? 10 digits with
  | none => rfl
  | some m =>
    obtain ⟨c, hc, hmark⟩ := h
    obtain ⟨d, rest, rfl⟩ := List.exists_cons_of_ne_nil (List.ne_nil_of_mem hc)
    obtain ⟨m, hspells⟩ :=
      (foldlM_digits_isSome_iff (by decide : 10 ≤ 16)).mp (Option.isSome_of_eq_some hread)
    have hdigit := isDecimalDigit_of_spells hspells c hc
    rcases hmark with rfl | rfl <;> cases hdigit

/-- Digits around a point or an exponent are no integer of any radix. -/
theorem digits?_eq_none {sign digits : List Char} {minus : Bool} (signed : IsSign sign minus)
    (h : IsDecimal (sign ++ digits) negative n e) (hmark : ∃ c ∈ digits, c = '.' ∨ c = 'e') :
    Plain.digits? digits = none := by
  have hread := ofDecimalText?_of_isDecimal h
  unfold Plain.digits?
  split
  -- A radix mark begins no decimal, with a sign or without.
  · cases signed <;> cases hread
  · cases signed <;> cases hread
  · cases signed <;> cases hread
  · rw [radixNat?_eq_none hmark, ite_self]

theorem isZeroPadded_eq_false {digits : List Char} (h : ∃ c ∈ digits, c = '.' ∨ c = 'e') :
    Plain.isZeroPadded digits = false := by
  obtain ⟨c, hc, hmark⟩ := h
  have hdigit : isDecimalDigit c = false := by rcases hmark with rfl | rfl <;> rfl
  have hsplit : c ∈ (splitSign digits).2 := by
    unfold splitSign
    split
    · rcases List.mem_cons.mp hc with rfl | hc
      · rcases hmark with h | h <;> cases h
      · exact hc
    · rcases List.mem_cons.mp hc with rfl | hc
      · rcases hmark with h | h <;> cases h
      · exact hc
    · exact hc
  unfold Plain.isZeroPadded
  split
  · rename_i rest heq
    rw [heq] at hsplit
    rcases List.mem_cons.mp hsplit with rfl | hc
    · rcases hmark with h | h <;> cases h
    · have hall : rest.all isDecimalDigit = false := by
        rw [List.all_eq_false]
        exact ⟨c, hc, by rw [hdigit]; exact Bool.false_ne_true⟩
      rw [hall, Bool.and_false]
  · rfl

/-- A plus sign is taken off a decimal, which is one without it. -/
theorem unsigned_of_isDecimal (h : IsDecimal text negative n e) :
    IsDecimal (Plain.unsigned text) negative n e ∧
      (text.head? = some '+' → ∀ c ∈ (Plain.unsigned text).head?, c ≠ '+' ∧ c ≠ '-') := by
  have hdecimal := h
  obtain ⟨signed, pointed, nonempty, spelled, scaled⟩ := h
  obtain ⟨c, rest, rfl, hc⟩ := exists_mantissa pointed nonempty (isDecimalDigit_of_spells spelled)
  have hsign : c ≠ '+' ∧ c ≠ '-' := by
    constructor <;> rintro rfl <;> simp [isDecimalDigit] at hc
  cases signed with
  | plus =>
    refine ⟨IsDecimal.intro .none pointed nonempty spelled scaled, fun _ d hd => ?_⟩
    cases Option.some.inj hd
    exact hsign
  | minus => exact ⟨hdecimal, fun hplus => absurd (Option.some.inj hplus) (by decide)⟩
  | none =>
    have hunsigned (tail : List Char) : Plain.unsigned (c :: tail) = c :: tail := by
      unfold Plain.unsigned
      split
      · rename_i heq
        exact absurd (List.head_eq_of_cons_eq heq) hsign.1
      · rfl
    rw [List.nil_append, List.cons_append] at hdecimal ⊢
    rw [hunsigned]
    exact ⟨hdecimal, fun hplus => absurd (Option.some.inj hplus) hsign.1⟩

/-- A decimal is read as its number, if that is finite. -/
theorem float?_of_isDecimal (h : IsDecimal text negative n e) :
    Plain.float? text = (some (ofDecimal negative n e)).filter isFinite := by
  obtain ⟨hunsigned, hhead⟩ := unsigned_of_isDecimal h
  have hread := ofDecimalText?_of_isDecimal h
  have hbody := ofDecimalText?_of_isDecimal hunsigned
  have hword {cs : List Char} {word : String} (hcs : (ofDecimalText? cs).isSome = true)
      (hword : (ofDecimalText? word.toList).isSome = false) : String.ofList cs ≠ word := by
    rintro rfl
    rw [String.toList_ofList, hcs] at hword
    cases hword
  have hplus : (text.head? == some '+' && ((Plain.unsigned text).head? == some '+' ||
      (Plain.unsigned text).head? == some '-')) = false := by
    rw [Bool.and_eq_false_imp]
    intro heq
    have hsign := hhead (beq_iff_eq.mp heq)
    cases hfirst : (Plain.unsigned text).head? with
    | none => rfl
    | some c => simp [hsign c hfirst]
  have hnone (cs : List Char) (words : List String) (hcs : (ofDecimalText? cs).isSome = true)
      (hwords : ∀ word ∈ words, (ofDecimalText? word.toList).isSome = false) :
      words.contains (String.ofList cs) = false := by
    rw [← Bool.not_eq_true, List.contains_iff_mem]
    exact fun hmem => hword hcs (hwords _ hmem) rfl
  unfold Plain.float?
  dsimp only
  rw [hplus, hnone _ _ (by rw [hbody]; rfl) (by decide), hnone _ _ (by rw [hread]; rfl) (by decide),
    hnone _ _ (by rw [hread]; rfl) (by decide), hbody]
  rfl

/-- A decimal with a point or an exponent is no integer. -/
theorem int?_of_isDecimal (h : IsDecimal text negative n e)
    (hmark : ∃ c ∈ text, c = '.' ∨ c = 'e') : Plain.int? text = none := by
  have hrest {sign : Char} {rest : List Char} (hsign : sign = '-' ∨ sign = '+')
      (htext : text = sign :: rest) : ∃ c ∈ rest, c = '.' ∨ c = 'e' := by
    obtain ⟨c, hc, hmark⟩ := hmark
    rw [htext] at hc
    rcases List.mem_cons.mp hc with rfl | hc
    · rcases hsign with rfl | rfl <;> simp at hmark
    · exact ⟨c, hc, hmark⟩
  unfold Plain.int?
  split
  · rw [digits?_eq_none .minus h (hrest (.inl rfl) rfl)]
    rfl
  · rw [digits?_eq_none .plus h (hrest (.inr rfl) rfl)]
    rfl
  · rw [digits?_eq_none .none h hmark]
    rfl

/-- A decimal with a point or an exponent is a float as a plain scalar. -/
theorem meaning_of_isDecimal {text : String} (h : IsDecimal text.toList negative n e)
    (hmark : ∃ c ∈ text.toList, c = '.' ∨ c = 'e')
    (hfinite : (ofDecimal negative n e).isFinite = true) :
    Plain.meaning text = .float (ofDecimal negative n e) := by
  have hread := ofDecimalText?_of_isDecimal h
  have hne {word : String} (hword : ofDecimalText? word.toList = none) : (text == word) = false := by
    rw [beq_eq_false_iff_ne]
    rintro rfl
    rw [hread] at hword
    cases hword
  have hnull : (text.toList.isEmpty || Plain.isNull text) = false := by
    obtain ⟨c, hc, -⟩ := hmark
    rw [List.isEmpty_eq_false_iff.mpr (List.ne_nil_of_mem hc)]
    unfold Plain.isNull
    rw [hne rfl, hne rfl, hne rfl, hne rfl]
    rfl
  have hbool : Plain.bool? text = none := by
    unfold Plain.bool?
    rw [hne rfl, hne rfl, hne rfl, hne rfl, hne rfl, hne rfl]
    rfl
  unfold Plain.meaning
  dsimp only
  rw [hnull, hbool, int?_of_isDecimal h hmark, isZeroPadded_eq_false hmark, float?_of_isDecimal h,
    Option.filter_some, hfinite]
  rfl

end Decimals

/-! ## 4. Numbers -/

/-- The text of a finite number is a decimal that stands for it. -/
theorem exists_isDecimal {n : Number} (h : n.isFinite = true) : ∃ negative digits e,
    IsDecimal (numberText n).toList negative digits e ∧ ofDecimal negative digits e = n := by
  apply ofDecimalText?_eq_some_iff.mp
  rw [ofDecimalText?_numberText, if_pos h]

/-- The text of a number may be written plain. -/
theorem allowsPlain_numberText (n : Number) : Style.allowsPlain (numberText n).toList = true := by
  cases n with
  | nan => decide
  | infinite negative => cases negative <;> decide
  | finite negative m =>
    obtain ⟨_, _, _, hdecimal, -⟩ := exists_isDecimal (n := .finite negative m) rfl
    exact allowsPlain_of_isDecimal hdecimal

/-- The text of a number, written plain, means the number. -/
theorem meaning_numberText (n : Number) : Plain.meaning (numberText n) = .float n := by
  cases n with
  | nan => rfl
  | infinite negative => cases negative <;> rfl
  | finite negative m =>
    obtain ⟨_, _, _, hdecimal, hn⟩ := exists_isDecimal (n := .finite negative m) rfl
    have hmeaning := meaning_of_isDecimal hdecimal (exists_mark _) (by rw [hn]; rfl)
    rwa [hn] at hmeaning

end Conform.Yaml
