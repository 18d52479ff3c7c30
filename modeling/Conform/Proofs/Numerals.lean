import Mathlib.Data.List.TakeWhile
import Mathlib.Tactic.FinCases
import Conform.Proofs.Acceptance
import Conform.Proofs.Radixes

/-!
# Numerals — the texts that are taken for numbers

A numeral is an integer behind a radix mark, or a decimal with an optional sign and an optional
exponent (`Number.IsNumeral`).  A number schema without rules accepts a text if and only if it is a
numeral between white space and less than what overflows (`validate_number_grammar`); the words for
infinities and NaN are no numerals.
-/

namespace Conform

/-! ## 1. White space -/

namespace Text

theorem dropEndWhile_append {p : Char → Bool} {text after : List Char} (hafter : ∀ c ∈ after, p c)
    (htext : ∀ c ∈ text, p c = false) : dropEndWhile p (text ++ after) = text := by
  have hreverse : ∀ c ∈ after.reverse, p c := fun c hc => hafter c (List.mem_reverse.mp hc)
  unfold dropEndWhile
  rw [List.reverse_append, List.dropWhile_append_of_pos hreverse]
  cases hlast : text.reverse with
  | nil => rw [List.reverse_eq_nil_iff.mp hlast]; rfl
  | cons c rest =>
    have hc : p c = false := htext c (List.mem_reverse.mp (hlast ▸ List.mem_cons_self))
    rw [List.dropWhile_cons_of_neg (Bool.not_eq_true _ ▸ hc), ← hlast, List.reverse_reverse]

theorem exists_dropEndWhile (p : Char → Bool) (cs : List Char) :
    ∃ after, cs = dropEndWhile p cs ++ after ∧ ∀ c ∈ after, p c := by
  refine ⟨(cs.reverse.takeWhile p).reverse, ?_, fun c hc => ?_⟩
  · unfold dropEndWhile
    rw [← List.reverse_append, List.takeWhile_append_dropWhile, List.reverse_reverse]
  · exact List.mem_takeWhile_imp (List.mem_reverse.mp hc)

/-- What has no white space in it is left by trimming. -/
theorem trim_append {before text after : List Char}
    (hbefore : ∀ c ∈ before, Unicode.isWhiteSpace c) (hafter : ∀ c ∈ after, Unicode.isWhiteSpace c)
    (htext : ∀ c ∈ text, Unicode.isWhiteSpace c = false) (hne : text ≠ []) :
    trim (before ++ (text ++ after)) = text := by
  unfold trim
  rw [List.dropWhile_append_of_pos hbefore]
  cases text with
  | nil => exact absurd rfl hne
  | cons c rest =>
    have hc : ¬Unicode.isWhiteSpace c = true := by
      rw [htext c List.mem_cons_self]
      exact Bool.false_ne_true
    rw [List.cons_append, List.dropWhile_cons_of_neg hc, ← List.cons_append]
    exact dropEndWhile_append hafter htext

/-- Trimming takes white space off both ends, and nothing else. -/
theorem exists_trim (cs : List Char) :
    ∃ before after, cs = before ++ (trim cs ++ after) ∧
      (∀ c ∈ before, Unicode.isWhiteSpace c) ∧ ∀ c ∈ after, Unicode.isWhiteSpace c := by
  obtain ⟨after, hsplit, hafter⟩ :=
    exists_dropEndWhile Unicode.isWhiteSpace (cs.dropWhile Unicode.isWhiteSpace)
  refine ⟨cs.takeWhile Unicode.isWhiteSpace, after, ?_, fun c => List.mem_takeWhile_imp, hafter⟩
  unfold trim
  rw [← hsplit, List.takeWhile_append_dropWhile]

end Text

namespace Number

/-! ## 2. The grammar -/

inductive IsSign : List Char → Bool → Prop
  | none : IsSign [] false
  | plus : IsSign ['+'] false
  | minus : IsSign ['-'] true

inductive IsMantissa : List Char → List Char → List Char → Prop
  | whole (digits : List Char) : IsMantissa digits digits []
  | pointed (whole fraction : List Char) : IsMantissa (whole ++ '.' :: fraction) whole fraction

inductive IsPower : List Char → Int → Prop
  | none : IsPower [] 0
  | power {mark : Char} {sign digits : List Char} {negative : Bool} {n : Nat}
      (marked : mark = 'e' ∨ mark = 'E') (signed : IsSign sign negative) (nonempty : digits ≠ [])
      (spelled : Spells 10 digits n) :
      IsPower (mark :: (sign ++ digits)) (if negative then -(n : Int) else n)

/-- A decimal, and the number `±digits * 10 ^ exponent` that it stands for. -/
inductive IsDecimal : List Char → Bool → Nat → Int → Prop
  | intro {sign mantissa whole fraction power : List Char} {negative : Bool} {digits : Nat}
      {exponent : Int} (signed : IsSign sign negative)
      (pointed : IsMantissa mantissa whole fraction) (nonempty : whole ++ fraction ≠ [])
      (spelled : Spells 10 (whole ++ fraction) digits) (scaled : IsPower power exponent) :
      IsDecimal (sign ++ (mantissa ++ power)) negative digits (exponent - fraction.length)

def radixMarks : List (Char × Nat) :=
  [('x', 16), ('X', 16), ('o', 8), ('O', 8), ('b', 2), ('B', 2)]

/-- A numeral, and the number `±digits * 10 ^ exponent` that it stands for: an integer behind a
radix mark has neither a sign nor an exponent. -/
inductive IsNumeral : List Char → Bool → Nat → Int → Prop
  | radix {mark : Char} {radix : Nat} {digits : List Char} {n : Nat}
      (marked : (mark, radix) ∈ radixMarks) (nonempty : digits ≠ [])
      (spelled : Spells radix digits n) : IsNumeral ('0' :: mark :: digits) false n 0
  | decimal {text : List Char} {negative : Bool} {digits : Nat} {exponent : Int}
      (decimal : IsDecimal text negative digits exponent) : IsNumeral text negative digits exponent

/-- A numeral between white space. -/
def Writes (text : String) (negative : Bool) (digits : Nat) (exponent : Int) : Prop :=
  ∃ before numeral after, text.toList = before ++ (numeral ++ after) ∧
    (∀ c ∈ before, Unicode.isWhiteSpace c) ∧ (∀ c ∈ after, Unicode.isWhiteSpace c) ∧
    IsNumeral numeral negative digits exponent

/-! ## 3. Reading decimals -/

variable {text digits rest : List Char} {negative : Bool} {n : Nat} {e : Int} {x : Number}

/-- Digits are taken off up to a character that is none. -/
theorem takeWhile_digits (h : ∀ c ∈ digits, isDecimalDigit c)
    (hrest : ∀ c ∈ rest.head?, isDecimalDigit c = false) :
    (digits ++ rest).takeWhile isDecimalDigit = digits ∧
      (digits ++ rest).dropWhile isDecimalDigit = rest := by
  rw [List.takeWhile_append_of_pos h, List.dropWhile_append_of_pos h]
  cases rest with
  | nil => exact ⟨List.append_nil _, rfl⟩
  | cons c rest =>
    have hc : ¬isDecimalDigit c = true := by
      rw [hrest c rfl]
      exact Bool.false_ne_true
    rw [List.takeWhile_cons_of_neg hc, List.dropWhile_cons_of_neg hc]
    exact ⟨List.append_nil _, rfl⟩

/-- A sign is split off, and what is left is the rest. -/
theorem exists_splitSign (text : List Char) :
    ∃ sign, IsSign sign (splitSign text).1 ∧ text = sign ++ (splitSign text).2 := by
  unfold splitSign
  split
  · exact ⟨_, .minus, rfl⟩
  · exact ⟨_, .plus, rfl⟩
  · exact ⟨_, .none, rfl⟩

theorem splitSign_append {sign : List Char} (h : IsSign sign negative)
    (hrest : ∀ c ∈ rest.head?, c ≠ '-' ∧ c ≠ '+') : splitSign (sign ++ rest) = (negative, rest) := by
  cases h with
  | plus => rfl
  | minus => rfl
  | none =>
    unfold splitSign
    split
    · rename_i hhead
      exact absurd rfl (hrest '-' (by rw [← List.nil_append rest, hhead]; rfl)).1
    · rename_i hhead
      exact absurd rfl (hrest '+' (by rw [← List.nil_append rest, hhead]; rfl)).2
    · rfl

theorem ne_sign_of_digit {c : Char} (h : isDecimalDigit c = true) : c ≠ '-' ∧ c ≠ '+' := by
  constructor <;> rintro rfl <;> exact absurd h (by decide)

/-- An exponent is read just where the grammar has one. -/
theorem exponent?_eq_some_iff : exponent? text = some e ↔ IsPower text e := by
  constructor
  · intro h
    unfold exponent? at h
    split at h
    · cases h
      exact .none
    · rename_i mark rest
      split at h
      · rename_i hmark
        obtain ⟨sign, hsign, hrest⟩ := exists_splitSign rest
        dsimp only at h
        split at h
        · rename_i hdigits
          cases h
          have hpower := IsPower.power hmark hsign hdigits.1
            (spells_digitsToNat (List.all_eq_true.mp hdigits.2))
          rwa [← hrest] at hpower
        · cases h
      · cases h
  · intro h
    cases h with
    | none => rfl
    | @power mark sign digits negative n hmark hsign nonempty spelled =>
      have hall := isDecimalDigit_of_spells spelled
      have hsplit : splitSign (sign ++ digits) = (negative, digits) :=
        splitSign_append hsign fun c hc => ne_sign_of_digit (hall c (List.mem_of_head? hc))
      unfold exponent?
      dsimp only
      rw [if_pos hmark, hsplit]
      dsimp only
      rw [if_pos ⟨nonempty, List.all_eq_true.mpr hall⟩, digitsToNat_of_spells spelled]

theorem IsPower.head (h : IsPower text e) :
    ∀ c ∈ text.head?, isDecimalDigit c = false ∧ c ≠ '.' ∧ c ≠ '-' ∧ c ≠ '+' := by
  cases h with
  | none => exact fun c hc => nomatch hc
  | power mark =>
    rintro c hc
    obtain rfl : _ = c := Option.some.inj hc
    rcases mark with rfl | rfl <;> decide

theorem IsMantissa.head {mantissa whole fraction tail : List Char}
    (h : IsMantissa mantissa whole fraction) (nonempty : whole ++ fraction ≠ [])
    (hwhole : ∀ c ∈ whole, isDecimalDigit c) :
    ∀ c ∈ (mantissa ++ tail).head?, c ≠ '-' ∧ c ≠ '+' := by
  cases whole with
  | nil =>
    cases h with
    | whole => exact absurd rfl nonempty
    | pointed =>
      rintro c hc
      obtain rfl : '.' = c := Option.some.inj hc
      decide
  | cons d rest =>
    have hd := ne_sign_of_digit (hwhole d List.mem_cons_self)
    cases h <;> exact fun c hc => Option.some.inj hc ▸ hd

/-- A decimal of the grammar is read as the number that it stands for. -/
theorem ofDecimalText?_of_isDecimal (h : IsDecimal text negative n e) :
    ofDecimalText? text = some (ofDecimal negative n e) := by
  obtain ⟨signed, pointed, nonempty, spelled, scaled⟩ := h
  obtain ⟨hwhole, hfraction⟩ := List.forall_mem_append.mp (isDecimalDigit_of_spells spelled)
  have hread := exponent?_eq_some_iff.mpr scaled
  unfold ofDecimalText?
  rw [splitSign_append signed (pointed.head nonempty hwhole)]
  dsimp only
  cases pointed with
  | whole =>
    obtain ⟨htake, hdrop⟩ := takeWhile_digits hwhole fun c hc => (scaled.head c hc).1
    rw [htake, hdrop]
    split
    · -- The exponent does not begin with a point.
      exact absurd rfl (scaled.head '.' rfl).2.1
    · dsimp only
      rw [if_neg nonempty, hread, digitsToNat_of_spells spelled]
      rfl
  | pointed =>
    have hpoint (tail : List Char) : ∀ c ∈ ('.' :: tail).head?, isDecimalDigit c = false :=
      fun c hc => Option.some.inj hc ▸ (by decide : isDecimalDigit '.' = false)
    rw [List.append_assoc, List.cons_append]
    obtain ⟨htake, hdrop⟩ := takeWhile_digits hwhole (hpoint _)
    rw [htake, hdrop]
    obtain ⟨htake, hdrop⟩ := takeWhile_digits hfraction fun c hc => (scaled.head c hc).1
    simp only [htake, hdrop]
    rw [if_neg nonempty, hread, digitsToNat_of_spells spelled]
    rfl

/-- A decimal is read as the number nearest to what it stands for, and nothing else is read. -/
theorem ofDecimalText?_eq_some_iff :
    ofDecimalText? text = some x ↔
      ∃ negative n e, IsDecimal text negative n e ∧ ofDecimal negative n e = x := by
  constructor
  · intro h
    obtain ⟨sign, hsign, htext⟩ := exists_splitSign text
    unfold ofDecimalText? at h
    dsimp only at h
    generalize hwhole : (splitSign text).2.takeWhile isDecimalDigit = whole at h
    generalize hafter : (splitSign text).2.dropWhile isDecimalDigit = after at h
    have hunsigned : (splitSign text).2 = whole ++ after := by
      rw [← hwhole, ← hafter, List.takeWhile_append_dropWhile]
    have hdigits : ∀ c ∈ whole, isDecimalDigit c := by
      intro c hc
      rw [← hwhole] at hc
      exact List.mem_takeWhile_imp hc
    rw [hunsigned] at htext
    -- With a point or without one, what follows the digits is the exponent.
    obtain ⟨mantissa, fraction, tail, hsplit, hmantissa, hfraction, hread⟩ :
        ∃ mantissa fraction tail, whole ++ after = mantissa ++ tail ∧
          IsMantissa mantissa whole fraction ∧ (∀ c ∈ fraction, isDecimalDigit c) ∧
          (if whole ++ fraction = [] then none
            else (exponent? tail).map fun e =>
              ofDecimal (splitSign text).1 (digitsToNat (whole ++ fraction))
                (e - fraction.length)) = some x := by
      split at h
      · rename_i rest
        refine ⟨_, rest.takeWhile isDecimalDigit, rest.dropWhile isDecimalDigit, ?_,
          .pointed whole _, fun c => List.mem_takeWhile_imp, h⟩
        rw [List.append_assoc, List.cons_append, List.takeWhile_append_dropWhile]
      · exact ⟨_, [], _, rfl, .whole whole, fun c hc => absurd hc List.not_mem_nil, h⟩
    split at hread
    · cases hread
    · rename_i hne
      obtain ⟨e, he, rfl⟩ := Option.map_eq_some_iff.mp hread
      have hspells := spells_digitsToNat (List.forall_mem_append.mpr ⟨hdigits, hfraction⟩)
      have hdecimal := IsDecimal.intro hsign hmantissa hne hspells (exponent?_eq_some_iff.mp he)
      rw [← hsplit, ← htext] at hdecimal
      exact ⟨_, _, _, hdecimal, rfl⟩
  · rintro ⟨negative, n, e, hdecimal, rfl⟩
    exact ofDecimalText?_of_isDecimal hdecimal

/-! ## 4. Reading numerals -/

section Characters

variable {radix value : Nat} {c : Char}

/-- The characters of ASCII that can be seen are no white space. -/
theorem isWhiteSpace_of_ascii (lower : 0x20 < c.toNat) (upper : c.toNat < 0x7F) :
    Unicode.isWhiteSpace c = false := by
  have hfirst : ∀ code < 0x7F, 0x20 < code → Unicode.isWhiteSpace (Char.ofNat code) = false := by
    decide +kernel
  have hc := hfirst c.toNat upper lower
  rwa [Char.ofNat_toNat] at hc

theorem isWhiteSpace_digit (hradix : radix ≤ 16) (h : IsDigit radix c value) :
    Unicode.isWhiteSpace c = false := by
  have hdigit : ∀ v < 16, Unicode.isWhiteSpace (Nat.digitChar v) = false ∧
      Unicode.isWhiteSpace (Nat.digitChar v).toUpper = false := by
    decide +kernel
  obtain ⟨hvalue, rfl | rfl⟩ := h
  · exact (hdigit value (Nat.lt_of_lt_of_le hvalue hradix)).1
  · exact (hdigit value (Nat.lt_of_lt_of_le hvalue hradix)).2

theorem isWhiteSpace_spells (hradix : radix ≤ 16) (h : Spells radix digits n) :
    ∀ c ∈ digits, Unicode.isWhiteSpace c = false := by
  induction h with
  | nil => exact fun c hc => absurd hc List.not_mem_nil
  | snoc _ last ih =>
    exact List.forall_mem_append.mpr
      ⟨ih, List.forall_mem_singleton.mpr (isWhiteSpace_digit hradix last)⟩

theorem IsSign.isWhiteSpace (h : IsSign text negative) :
    ∀ c ∈ text, Unicode.isWhiteSpace c = false := by
  cases h with
  | none => exact fun c hc => absurd hc List.not_mem_nil
  | plus => exact List.forall_mem_singleton.mpr (isWhiteSpace_of_ascii (by decide) (by decide))
  | minus => exact List.forall_mem_singleton.mpr (isWhiteSpace_of_ascii (by decide) (by decide))

theorem IsPower.isWhiteSpace (h : IsPower text e) :
    ∀ c ∈ text, Unicode.isWhiteSpace c = false := by
  cases h with
  | none => exact fun c hc => absurd hc List.not_mem_nil
  | power marked signed _ spelled =>
    rw [List.forall_mem_cons, List.forall_mem_append]
    refine ⟨?_, signed.isWhiteSpace, isWhiteSpace_spells (by decide) spelled⟩
    rcases marked with rfl | rfl <;> exact isWhiteSpace_of_ascii (by decide) (by decide)

theorem IsDecimal.isWhiteSpace (h : IsDecimal text negative n e) :
    ∀ c ∈ text, Unicode.isWhiteSpace c = false := by
  obtain ⟨signed, pointed, -, spelled, scaled⟩ := h
  have hdigits := isWhiteSpace_spells (by decide) spelled
  rw [List.forall_mem_append, List.forall_mem_append]
  refine ⟨signed.isWhiteSpace, ?_, scaled.isWhiteSpace⟩
  cases pointed with
  | whole => rwa [List.append_nil] at hdigits
  | pointed =>
    rw [List.forall_mem_append] at hdigits ⊢
    have hpoint : Unicode.isWhiteSpace '.' = false := isWhiteSpace_of_ascii (by decide) (by decide)
    exact ⟨hdigits.1, List.forall_mem_cons.mpr ⟨hpoint, hdigits.2⟩⟩

/-- No white space stands within a numeral. -/
theorem IsNumeral.isWhiteSpace (h : IsNumeral text negative n e) :
    ∀ c ∈ text, Unicode.isWhiteSpace c = false := by
  cases h with
  | decimal decimal => exact decimal.isWhiteSpace
  | @radix mark radix digits n marked _ spelled =>
    have hmark : ∀ m ∈ radixMarks, m.2 ≤ 16 ∧ 0x20 < m.1.toNat ∧ m.1.toNat < 0x7F := by decide
    obtain ⟨hradix, lower, upper⟩ := hmark _ marked
    rw [List.forall_mem_cons, List.forall_mem_cons]
    exact ⟨isWhiteSpace_of_ascii (by decide) (by decide), isWhiteSpace_of_ascii lower upper,
      isWhiteSpace_spells hradix spelled⟩

/-- A numeral is not empty. -/
theorem IsNumeral.ne_nil (h : IsNumeral text negative n e) : text ≠ [] := by
  cases h with
  | radix => exact List.cons_ne_nil _ _
  | decimal decimal =>
    obtain ⟨-, pointed, nonempty, -, -⟩ := decimal
    cases pointed with
    | whole =>
      rw [List.append_nil] at nonempty
      exact List.append_ne_nil_of_right_ne_nil _ (List.append_ne_nil_of_left_ne_nil nonempty _)
    | pointed => simp

end Characters

/-- What is written is what trimming leaves. -/
theorem writes_iff {s : String} : Writes s negative n e ↔
    IsNumeral (Text.trim s.toList) negative n e := by
  constructor
  · rintro ⟨before, numeral, after, hs, hbefore, hafter, hnumeral⟩
    rwa [hs, Text.trim_append hbefore hafter hnumeral.isWhiteSpace hnumeral.ne_nil]
  · intro hnumeral
    obtain ⟨before, after, hs, hbefore, hafter⟩ := Text.exists_trim s.toList
    exact ⟨before, _, after, hs, hbefore, hafter, hnumeral⟩

/-- What starts with a radix mark, and only that, is read in another radix. -/
theorem radixOf?_eq_some_iff {radix : Nat} :
    radixOf? text = some (radix, digits) ↔
      ∃ mark, (mark, radix) ∈ radixMarks ∧ text = '0' :: mark :: digits := by
  constructor
  · intro h
    unfold radixOf? at h
    split at h <;> cases h <;> exact ⟨_, by decide, rfl⟩
  · rintro ⟨mark, hmark, rfl⟩
    fin_cases hmark <;> rfl

/-- A zero with a radix mark behind it begins no decimal. -/
theorem ofDecimalText?_radixMark {mark : Char} {radix : Nat} (hmark : (mark, radix) ∈ radixMarks) :
    ofDecimalText? ('0' :: mark :: digits) = none := by
  fin_cases hmark <;> rfl

/-- A decimal does not begin like an integer behind a radix mark. -/
theorem radixOf?_of_isDecimal (h : IsDecimal text negative n e) : radixOf? text = none := by
  cases hradix : radixOf? text with
  | none => rfl
  | some found =>
    obtain ⟨mark, hmark, rfl⟩ := radixOf?_eq_some_iff.mp hradix
    have hnone : ofDecimalText? ('0' :: mark :: found.2) = none := ofDecimalText?_radixMark hmark
    rw [ofDecimalText?_of_isDecimal h] at hnone
    cases hnone

/-- The radixes that can be announced are powers of two. -/
theorem exists_pow_of_radixMark {mark : Char} {radix : Nat} (h : (mark, radix) ∈ radixMarks) :
    ∃ k ≤ 4, radix = 2 ^ k := by
  fin_cases h
  · exact ⟨4, by decide, rfl⟩
  · exact ⟨4, by decide, rfl⟩
  · exact ⟨3, by decide, rfl⟩
  · exact ⟨3, by decide, rfl⟩
  · exact ⟨1, by decide, rfl⟩
  · exact ⟨1, by decide, rfl⟩

/-- Behind a radix mark the digits of the radix are read, and nothing past the finite numbers. -/
theorem ofLiteral?_of_radixMark {s : String} {mark : Char} {radix : Nat}
    (hmark : (mark, radix) ∈ radixMarks) (hs : Text.trim s.toList = '0' :: mark :: digits) :
    ofLiteral? s = (ofRadixDigits? radix digits).filter isFinite := by
  unfold ofLiteral?
  rw [hs]
  dsimp only
  rw [radixOf?_eq_some_iff.mpr ⟨mark, hmark, rfl⟩]

/-- Without a radix mark a decimal is read, and nothing past the finite numbers. -/
theorem ofLiteral?_of_radixOf? {s : String} (h : radixOf? (Text.trim s.toList) = none) :
    ofLiteral? s = (ofDecimalText? (Text.trim s.toList)).filter isFinite := by
  unfold ofLiteral?
  dsimp only
  rw [h]

theorem inRange_zero : InRange n 0 ↔ n < overflow := by
  unfold InRange
  rw [Int.neg_zero, Int.toNat_zero, Nat.pow_zero, Nat.mul_one, Nat.mul_one]

/-- A text is read as a number where it is a numeral that does not overflow. -/
theorem ofLiteral?_isSome_iff {s : String} : (ofLiteral? s).isSome = true ↔
    ∃ negative n e, Writes s negative n e ∧ InRange n e := by
  simp only [writes_iff]
  constructor
  · intro h
    obtain ⟨x, hx⟩ := Option.isSome_iff_exists.mp h
    cases hradix : radixOf? (Text.trim s.toList) with
    | none =>
      rw [ofLiteral?_of_radixOf? hradix, Option.filter_eq_some_iff] at hx
      obtain ⟨hread, hfinite⟩ := hx
      obtain ⟨negative, n, e, hdecimal, rfl⟩ := ofDecimalText?_eq_some_iff.mp hread
      exact ⟨negative, n, e, .decimal hdecimal, ofDecimal_isFinite_iff.mp hfinite⟩
    | some found =>
      obtain ⟨radix, digits⟩ := found
      obtain ⟨mark, hmark, htext⟩ := radixOf?_eq_some_iff.mp hradix
      obtain ⟨k, hk, rfl⟩ := exists_pow_of_radixMark hmark
      rw [ofLiteral?_of_radixMark hmark htext, Option.filter_eq_some_iff] at hx
      obtain ⟨hread, hfinite⟩ := hx
      have hnonempty : digits ≠ [] := by
        rintro rfl
        cases hread
      -- Reading digit by digit succeeds just where all of them are digits of the radix.
      obtain ⟨n, hspells⟩ := (foldlM_digits_isSome_iff (Nat.pow_le_pow_right (by decide) hk)).mp
        (Option.isSome_of_eq_some ((ofRadixDigits?_of_ne_nil hnonempty).symm.trans hread))
      obtain ⟨b, hb, hover, -, -⟩ := ofRadixDigits?_of_spells hk hnonempty hspells
      obtain rfl : ofNat b = x := Option.some.inj (hb.symm.trans hread)
      rw [htext]
      exact ⟨false, n, 0, .radix hmark hnonempty hspells,
        inRange_zero.mpr (hover.mp (ofNat_isFinite_iff.mp hfinite))⟩
  · rintro ⟨negative, n, e, hnumeral, hrange⟩
    generalize htext : Text.trim s.toList = text at hnumeral
    cases hnumeral with
    | decimal hdecimal =>
      -- A numeral of one form is not taken for one of the other form.
      have hradix := radixOf?_of_isDecimal hdecimal
      rw [← htext] at hradix hdecimal
      rw [ofLiteral?_of_radixOf? hradix, ofDecimalText?_of_isDecimal hdecimal,
        Option.filter_some_pos (ofDecimal_isFinite_iff.mpr hrange)]
      rfl
    | radix hmark hnonempty hspells =>
      obtain ⟨k, hk, rfl⟩ := exists_pow_of_radixMark hmark
      obtain ⟨b, hb, hover, -, -⟩ := ofRadixDigits?_of_spells hk hnonempty hspells
      have hfinite := ofNat_isFinite_iff.mpr (hover.mpr (inRange_zero.mp hrange))
      rw [ofLiteral?_of_radixMark hmark htext, hb, Option.filter_some_pos hfinite]
      rfl

/-- What begins with neither a digit nor a point, but for its sign, is no decimal. -/
theorem ofDecimalText?_eq_none {c : Char} (h : (splitSign text).2 = c :: rest)
    (hdigit : isDecimalDigit c = false) (hpoint : c ≠ '.') : ofDecimalText? text = none := by
  have hc : ¬isDecimalDigit c = true := by
    rw [hdigit]
    exact Bool.false_ne_true
  unfold ofDecimalText?
  dsimp only
  rw [h, List.takeWhile_cons_of_neg hc, List.dropWhile_cons_of_neg hc]
  split
  · rename_i hhead
    cases hhead
    exact absurd rfl hpoint
  · rfl

/-- A word that begins with the first letter of "nan" or of "inf" is no literal. -/
theorem ofLiteral?_of_word {s : String} {c : Char}
    (h : (splitSign (Text.trim s.toList)).2 = c :: rest) (hc : c.toLower = 'n' ∨ c.toLower = 'i') :
    ofLiteral? s = none := by
  have hdigit : isDecimalDigit c = false := by
    by_contra hdigit
    obtain ⟨v, hv, hcv⟩ := isDecimalDigit_iff.mp (Bool.not_eq_false _ ▸ hdigit)
    have hlower : ∀ v < 10, (Nat.digitChar v).toLower ≠ 'n' ∧ (Nat.digitChar v).toLower ≠ 'i' ∧
        (Nat.digitChar v).toUpper = Nat.digitChar v := by
      decide
    obtain ⟨hn, hi, hupper⟩ := hlower v hv
    rw [hupper, or_self] at hcv
    exact hc.elim (hcv ▸ hn) (hcv ▸ hi)
  have hpoint : c ≠ '.' := by
    rintro rfl
    exact absurd hc (by decide)
  have hradix : radixOf? (Text.trim s.toList) = none := by
    cases hradix : radixOf? (Text.trim s.toList) with
    | none => rfl
    | some found =>
      obtain ⟨mark, -, htext⟩ := radixOf?_eq_some_iff.mp hradix
      rw [htext] at h
      cases h
      exact absurd hc (by decide)
  rw [ofLiteral?_of_radixOf? hradix, ofDecimalText?_eq_none h hdigit hpoint]
  rfl

/-- The words for numbers that are not finite are no literals, and neither is what overflows. -/
theorem ofLiteral?_of_not_isFinite {s : String} (h : ofText? (Text.trim s.toList) = some x)
    (hx : x.isFinite = false) : ofLiteral? s = none := by
  generalize htext : Text.trim s.toList = text at h
  have hword (word : String) {d : Char} {more : List Char} (hletters : word.toList = d :: more)
      (hd : d = 'n' ∨ d = 'i')
      (hlower : String.ofList ((splitSign text).2.map Char.toLower) = word) :
      ofLiteral? s = none := by
    rw [← hlower, String.toList_ofList] at hletters
    obtain ⟨c, rest, hsplit, rfl, -⟩ := List.map_eq_cons_iff.mp hletters
    rw [← htext] at hsplit
    exact ofLiteral?_of_word hsplit hd
  unfold ofText? at h
  dsimp only at h
  split at h
  · rename_i hlower
    exact hword "nan" rfl (.inl rfl) hlower
  · rename_i hlower
    exact hword "inf" rfl (.inr rfl) hlower
  · rename_i hlower
    exact hword "infinity" rfl (.inr rfl) hlower
  · obtain ⟨negative, n, e, hdecimal, rfl⟩ := ofDecimalText?_eq_some_iff.mp h
    have hradix := radixOf?_of_isDecimal hdecimal
    rw [← htext] at hradix h
    rw [ofLiteral?_of_radixOf? hradix, h, Option.filter_some_neg hx]

end Number

/-! ## 5. The number schema -/

/-- Without rules a text is accepted where it is a literal, and the number of the literal is kept. -/
theorem validate_number {ctx : Context} {ref : SchemaRef}
    (unruled : ctx.schemas.resolve? ref = some (.number {})) (text : String) :
    ∃ r, validate ctx (.string text) ref = .ok r ∧ r.isOk = (Number.ofLiteral? text).isSome ∧
      r.sanitized = (Number.ofLiteral? text).map .number := by
  let node : Node := ⟨.string text, .inline (.number {}), []⟩
  have hvalidate : validate ctx (.string text) ref = .ok (node.number {}).close := by
    unfold validate walk
    rw [unruled]
    rfl
  refine ⟨_, hvalidate, ?_⟩
  cases hliteral : Number.ofLiteral? text with
  | none =>
    have hreport : node.number {} =
        ⟨none, [node.diagnose .unableToCoerce], [node.diagnose .typeCoercion]⟩ := by
      unfold Node.number
      rw [show coerceNumber? node.value = none from hliteral]
      rfl
    rw [hreport]
    exact ⟨rfl, rfl⟩
  | some n =>
    have hcoerce : coerceNumber? node.value = some n := hliteral
    have meets : NumberRules.Meets {} n := by
      refine ⟨coerceNumber?_isFinite hcoerce, fun h => ?_, fun _ h => ?_, fun _ h => ?_⟩ <;>
        cases h
    rw [Node.number_of_meets hcoerce meets]
    exact ⟨rfl, rfl⟩

/-- A number schema without rules accepts a text if and only if it is a numeral between white space
that does not overflow.  The number that is given back is finite, and no text that stands for an
infinity or for NaN is accepted. -/
theorem validate_number_grammar (ctx : Context) (ref : SchemaRef)
    (unruled : ctx.schemas.resolve? ref = some (.number {})) (text : String) :
    ∃ r, validate ctx (.string text) ref = .ok r ∧
      (r.isOk = true ↔ ∃ negative digits exponent,
        Number.Writes text negative digits exponent ∧ Number.InRange digits exponent) ∧
      (∀ v, r.sanitized = some v → ∃ n, v = .number n ∧ n.isFinite = true) ∧
      (r.isOk = true → r.sanitized.isSome = true) ∧
      ∀ n, Number.ofText? (Text.trim text.toList) = some n → n.isFinite = false →
        r.isOk = false ∧ r.sanitized = none := by
  obtain ⟨r, hr, hok, hsanitized⟩ := validate_number unruled text
  refine ⟨r, hr, ?_, fun v hv => ?_, fun h => ?_, fun n hn hinfinite => ?_⟩
  · rw [hok, Number.ofLiteral?_isSome_iff]
  · rw [hsanitized] at hv
    obtain ⟨n, hn, rfl⟩ := Option.map_eq_some_iff.mp hv
    exact ⟨n, rfl, coerceNumber?_isFinite (v := .string text) hn⟩
  · rw [hsanitized, Option.isSome_map, ← hok, h]
  · rw [hok, hsanitized, Number.ofLiteral?_of_not_isFinite hn hinfinite]
    exact ⟨rfl, rfl⟩

/-- A hexadecimal integer between blanks is accepted, and the word for infinity is not. -/
theorem validate_number_grammar_blanks :
    (∃ r, validate ⟨.null, {}, {}⟩ (.string " 0x1F ") (.named "number") = .ok r ∧
      r.isOk = true) ∧
    ∃ r, validate ⟨.null, {}, {}⟩ (.string "-Infinity") (.named "number") = .ok r ∧
      r.isOk = false := by
  constructor
  · obtain ⟨r, hr, hok, -⟩ :=
      validate_number_grammar ⟨.null, {}, {}⟩ (.named "number") rfl " 0x1F "
    have hone : Number.IsDigit 16 '1' 1 := ⟨by decide, .inl rfl⟩
    have hfifteen : Number.IsDigit 16 'F' 15 := ⟨by decide, .inr rfl⟩
    have hnumeral : Number.IsNumeral ['0', 'x', '1', 'F'] false 31 0 :=
      .radix (by decide : ('x', 16) ∈ Number.radixMarks) (List.cons_ne_nil _ _)
        ((Number.spells_singleton hone).snoc hfifteen)
    have hblank : ∀ c ∈ [' '], Unicode.isWhiteSpace c = true :=
      List.forall_mem_singleton.mpr (by decide +kernel)
    exact ⟨r, hr, hok.mpr ⟨false, 31, 0, ⟨[' '], _, [' '], rfl, hblank, hblank, hnumeral⟩,
      by decide +kernel⟩⟩
  · obtain ⟨r, hr, -, -, -, hwords⟩ :=
      validate_number_grammar ⟨.null, {}, {}⟩ (.named "number") rfl "-Infinity"
    exact ⟨r, hr, (hwords (.infinite true) (by decide +kernel) rfl).1⟩

/-! ## 6. Integers in every radix -/

namespace Number

variable {digits text : List Char} {n : Nat} {mark : Char} {radix : Nat}

/-- Trimming takes nothing off a numeral. -/
theorem trim_ofList {negative : Bool} {e : Int} (h : IsNumeral text negative n e) :
    Text.trim (String.ofList text).toList = text := by
  have htrim : Text.trim ([] ++ (text ++ [])) = text :=
    Text.trim_append (fun _ hc => absurd hc List.not_mem_nil)
      (fun _ hc => absurd hc List.not_mem_nil) h.isWhiteSpace h.ne_nil
  rw [List.nil_append, List.append_nil] at htrim
  rw [String.toList_ofList, htrim]

theorem ofDecimal_zero (n : Nat) : ofDecimal false n 0 = ofNat n := by
  rw [ofDecimal_eq_ofUnits, Int.neg_zero, Int.toNat_zero, Nat.pow_zero, Nat.mul_one]
  rfl

theorem isDecimal_digits (nonempty : digits ≠ []) (spelled : Spells 10 digits n) :
    IsDecimal digits false n 0 := by
  rw [← List.append_nil digits] at nonempty spelled
  have hdecimal := IsDecimal.intro .none (.whole digits) nonempty spelled .none
  rwa [List.append_nil, List.nil_append] at hdecimal

/-- A decimal that does not overflow is read as the number nearest to what it stands for. -/
theorem ofLiteral?_of_isDecimal {negative : Bool} {e : Int} (h : IsDecimal text negative n e)
    (finite : (ofDecimal negative n e).isFinite = true) :
    ofLiteral? (String.ofList text) = some (ofDecimal negative n e) := by
  have htrim := trim_ofList (.decimal h)
  have hradix := radixOf?_of_isDecimal h
  rw [← htrim] at hradix
  rw [ofLiteral?_of_radixOf? hradix, htrim, ofDecimalText?_of_isDecimal h,
    Option.filter_some_pos finite]

/-- Decimal digits are read as the number nearest to what they spell. -/
theorem ofLiteral?_digits (finite : (ofNat n).isFinite = true) (nonempty : digits ≠ [])
    (spelled : Spells 10 digits n) : ofLiteral? (String.ofList digits) = some (ofNat n) := by
  rw [← ofDecimal_zero] at finite ⊢
  exact ofLiteral?_of_isDecimal (isDecimal_digits nonempty spelled) finite

/-- Digits behind a radix mark are read as the same number, if they do not slip. -/
theorem ofLiteral?_radix (finite : (ofNat n).isFinite = true) (marked : (mark, radix) ∈ radixMarks)
    (nonempty : digits ≠ []) (spelled : Spells radix digits n) :
    ∃ x, ofLiteral? (String.ofList ('0' :: mark :: digits)) = some x ∧
      (¬Slips radix n → x = ofNat n) ∧ (Slips radix n → x.lt (ofNat n) = true) := by
  obtain ⟨k, hk, rfl⟩ := exists_pow_of_radixMark marked
  obtain ⟨b, hread, hover, hnearest, hless⟩ := ofRadixDigits?_of_spells hk nonempty spelled
  have hfinite := ofNat_isFinite_iff.mpr (hover.mpr (ofNat_isFinite_iff.mp finite))
  refine ⟨ofNat b, ?_, fun hslips => ofNat_congr (hnearest hslips),
    fun hslips => ofNat_lt finite (hless hslips)⟩
  rw [ofLiteral?_of_radixMark marked (trim_ofList (.radix marked nonempty spelled)), hread,
    Option.filter_some_pos hfinite]

theorem lt_irrefl (x : Number) : x.lt x = false := by
  cases x with
  | nan => rfl
  | infinite negative => cases negative <;> rfl
  | finite negative m => exact decide_eq_false (Int.lt_irrefl _)

end Number

def ReadAs (ctx : Context) (ref : SchemaRef) (text : String) (x : Number) : Prop :=
  ∃ r, validate ctx (.string text) ref = .ok r ∧ r.isOk = true ∧ r.sanitized = some (.number x)

/-- Without rules a literal is accepted as the number that it is. -/
theorem readAs_of_ofLiteral? {ctx : Context} {ref : SchemaRef} {text : String} {x : Number}
    (unruled : ctx.schemas.resolve? ref = some (.number {}))
    (h : Number.ofLiteral? text = some x) : ReadAs ctx ref text x := by
  obtain ⟨r, hr, hok, hsanitized⟩ := validate_number unruled text
  rw [h] at hok hsanitized
  exact ⟨r, hr, hok, hsanitized⟩

/-- The digits of an integer, with any number of leading zeros, are coerced to the number nearest to
it where they are decimal.  Behind a radix mark they are coerced to that number if and only if they
do not slip, which takes more digits than a number holds; digits that slip are coerced to a lesser
number. -/
theorem validate_integer_texts (ctx : Context) (ref : SchemaRef)
    (unruled : ctx.schemas.resolve? ref = some (.number {})) (n : Nat)
    (finite : (Number.ofNat n).isFinite = true) :
    (∃ m, Number.ofNat n = .finite false m ∧
      Magnitude.IsNearest (n * Number.one) 1 m.units) ∧
    (∀ digits, digits ≠ [] → Number.Spells 10 digits n →
      ReadAs ctx ref (String.ofList digits) (Number.ofNat n)) ∧
    ∀ mark radix digits, (mark, radix) ∈ Number.radixMarks → digits ≠ [] →
      Number.Spells radix digits n →
      ∃ x, ReadAs ctx ref (String.ofList ('0' :: mark :: digits)) x ∧
        (x = Number.ofNat n ↔ ¬Number.Slips radix n) ∧
        (Number.Slips radix n → x.lt (Number.ofNat n) = true) ∧
        (n < 2 ^ 53 * radix → x = Number.ofNat n) := by
  refine ⟨?_, fun digits nonempty spelled => ?_, fun mark radix digits marked nonempty spelled => ?_⟩
  · obtain ⟨m, hm, hunits⟩ := Number.ofNat_eq_finite finite
    refine ⟨m, hm, ?_⟩
    rw [hunits, ← Number.nearest_mul_one]
    exact Magnitude.nearest_isNearest _ Nat.one_pos
  · exact readAs_of_ofLiteral? unruled (Number.ofLiteral?_digits finite nonempty spelled)
  · obtain ⟨x, hx, hsame, hless⟩ := Number.ofLiteral?_radix finite marked nonempty spelled
    refine ⟨x, readAs_of_ofLiteral? unruled hx, ⟨?_, hsame⟩, hless,
      fun hn => hsame (Number.not_slips_of_lt hn)⟩
    intro heq hslips
    have hlt := hless hslips
    rw [heq, Number.lt_irrefl] at hlt
    exact absurd hlt Bool.false_ne_true

/-- 2 ^ 53 + 1 is no number, and goes to the even one of its neighbours from every radix. -/
theorem validate_integer_texts_neighbours :
    ReadAs ⟨.null, {}, {}⟩ (.named "number") "0009007199254740993" (.ofNat (2 ^ 53 + 1)) ∧
    ReadAs ⟨.null, {}, {}⟩ (.named "number") "0x020000000000001" (.ofNat (2 ^ 53 + 1)) := by
  obtain ⟨-, hdecimal, hradix⟩ :=
    validate_integer_texts ⟨.null, {}, {}⟩ (.named "number") rfl (2 ^ 53 + 1) (by decide +kernel)
  constructor
  · have hdigits : "0009007199254740993".toList =
        List.replicate 3 '0' ++ Nat.toDigits 10 (2 ^ 53 + 1) := by decide +kernel
    have hread := hdecimal "0009007199254740993".toList (by decide)
      (hdigits ▸ (Number.spells_toDigits (by decide) _).zeros_append (by decide) 3)
    rwa [String.ofList_toList] at hread
  · have hdigits : "020000000000001".toList =
        List.replicate 1 '0' ++ Nat.toDigits 16 (2 ^ 53 + 1) := by decide +kernel
    obtain ⟨x, hx, -, -, hsame⟩ := hradix 'x' 16 "020000000000001".toList (by decide) (by decide)
      (hdigits ▸ (Number.spells_toDigits (by decide) _).zeros_append (by decide) 1)
    rw [← hsame (by decide)]
    exact hx

/-- The number nearest to 2 ^ 57 + 17 is 2 ^ 57 + 32, and the hexadecimal digits slip to 2 ^ 57. -/
theorem validate_integer_texts_slip :
    Number.Spells 10 "144115188075855889".toList (2 ^ 57 + 17) ∧
    Number.Spells 16 "200000000000011".toList (2 ^ 57 + 17) ∧
    ReadAs ⟨.null, {}, {}⟩ (.named "number") "144115188075855889" (.ofNat (2 ^ 57 + 32)) ∧
    ReadAs ⟨.null, {}, {}⟩ (.named "number") "0x200000000000011" (.ofNat (2 ^ 57)) ∧
    Number.ofNat (2 ^ 57) ≠ .ofNat (2 ^ 57 + 32) := by
  have hdecimal : Nat.toDigits 10 (2 ^ 57 + 17) = "144115188075855889".toList := by decide +kernel
  have hhexadecimal : Nat.toDigits 16 (2 ^ 57 + 17) = "200000000000011".toList := by decide +kernel
  refine ⟨?_, ?_, ?_, ?_, by decide +kernel⟩
  · rw [← hdecimal]
    exact Number.spells_toDigits (by decide) _
  · rw [← hhexadecimal]
    exact Number.spells_toDigits (by decide) _
  · exact readAs_of_ofLiteral? rfl (by decide +kernel)
  · exact readAs_of_ofLiteral? rfl (by decide +kernel)

end Conform
