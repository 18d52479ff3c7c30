import Conform.Proofs.JsonTexts
import Conform.Proofs.Lookups

/-!
# Integer texts — numbers that are taken for strings, and back

An integral number below 2 ^ 53 in magnitude is taken for the decimal text of its integer
(`Number.format_of_isExactInteger`, `Number.toLower_intText`).  The text is read as the number
again, zero without its sign, so that nothing but that sign is lost when a number is coerced to a
string (`validate_integer_back`).
-/

namespace Conform

namespace Number

variable {n : Number} {text : List Char} {negative : Bool} {k : Nat} {e : Int}

/-! ## 1. Texts of integers -/

def withoutZeroSign (n : Number) : Number := if n.eqv zero then zero else n

theorem toLower_intText (i : Int) : (toString i).toLower = toString i := by
  have hdigit : ∀ v < 10, (Nat.digitChar v).toLower = Nat.digitChar v ∧
      (Nat.digitChar v).toUpper = Nat.digitChar v := by
    decide
  have hdigits : ∀ c ∈ Nat.toDigits 10 i.natAbs, c.toLower = c := by
    intro c hc
    have hdecimal := isDecimalDigit_of_spells (spells_toDigits (by decide) i.natAbs) c hc
    obtain ⟨v, hv, rfl | rfl⟩ := isDecimalDigit_iff.mp hdecimal
    · exact (hdigit v hv).1
    · rw [(hdigit v hv).2, (hdigit v hv).1]
  have hmap : (Nat.toDigits 10 i.natAbs).map Char.toLower = Nat.toDigits 10 i.natAbs :=
    (List.map_congr_left hdigits).trans (List.map_id' _)
  apply String.toList_injective
  unfold String.toLower
  rw [String.toList_map, toList_intText]
  split
  · exact hmap
  · rw [List.map_cons, hmap]
    rfl

/-- The text of an integer is a decimal without an exponent. -/
theorem isDecimal_intText (i : Int) :
    IsDecimal (toString i).toList (decide (i < 0)) i.natAbs 0 := by
  have hspells := spells_toDigits (by decide : 1 < 10) i.natAbs
  have hne : Nat.toDigits 10 i.natAbs ++ [] ≠ [] := by
    rw [List.append_nil]
    exact Nat.toDigits_ne_nil
  rw [← List.append_nil (Nat.toDigits 10 i.natAbs)] at hspells
  have hdecimal {sign : List Char} (hsign : IsSign sign (decide (i < 0))) :
      IsDecimal (sign ++ Nat.toDigits 10 i.natAbs) (decide (i < 0)) i.natAbs 0 := by
    have hintro := IsDecimal.intro hsign (.whole _) hne hspells .none
    rwa [List.append_nil] at hintro
  rw [toList_intText]
  split
  · rename_i hi
    rw [decide_eq_false (Int.not_lt.mpr hi)] at hdecimal ⊢
    exact hdecimal .none
  · rename_i hi
    rw [decide_eq_true (Int.not_le.mp hi)] at hdecimal ⊢
    exact hdecimal .minus

/-! ## 2. Integral numbers -/

theorem eq_signedZero_of_eqv (h : n.eqv zero = true) : ∃ s, n = signedZero s := by
  obtain rfl | ⟨s, -, rfl, -⟩ := eq_or_zeros_of_eqv h
  · exact ⟨false, rfl⟩
  · exact ⟨s, rfl⟩

/-- An integral number is the number of its integer, but for the sign of zero. -/
theorem ofInt_truncate (h : n.isExactInteger = true) : ofInt n.truncate = n.withoutZeroSign := by
  have hzero (s : Bool) : ofInt (truncate (signedZero s)) = zero := by
    cases s <;> decide +kernel
  unfold withoutZeroSign
  split
  · rename_i heqv
    obtain ⟨s, rfl⟩ := eq_signedZero_of_eqv heqv
    exact hzero s
  · rename_i hne
    obtain heq | ⟨s, -, rfl, -⟩ := eq_or_zeros_of_eqv (eqv_ofInt_truncate h)
    · exact heq.symm
    · exact absurd (by cases s <;> rfl) hne

theorem isFinite_of_isExactInteger (h : n.isExactInteger = true) : n.isFinite = true := by
  cases n with
  | nan | infinite => cases h
  | finite => rfl

theorem withoutZeroSign_isFinite (h : n.isFinite = true) : n.withoutZeroSign.isFinite = true := by
  unfold withoutZeroSign
  split
  · rfl
  · exact h

/-- Numbers that differ in the sign of zero only are equal. -/
theorem eqv_of_withoutZeroSign {m : Number} (hm : m.isFinite = true)
    (h : m.withoutZeroSign = n.withoutZeroSign) : m.eqv n = true := by
  unfold withoutZeroSign at h
  split at h <;> split at h
  · rename_i hm hn
    obtain ⟨s, rfl⟩ := eq_signedZero_of_eqv hm
    obtain ⟨t, rfl⟩ := eq_signedZero_of_eqv hn
    cases s <;> cases t <;> rfl
  · rename_i hn
    exact absurd (by rw [← h]; rfl) hn
  · rename_i hm _
    exact absurd (by rw [h]; rfl) hm
  · exact h ▸ eqv_self hm

/-- An integral number is written as its integer. -/
theorem format_of_isExactInteger (h : n.isExactInteger = true) :
    n.format = toString n.truncate := by
  cases n with
  | nan | infinite => cases h
  | finite negative m =>
    unfold format
    split
    · rename_i heqv
      obtain ⟨s, heq⟩ := eq_signedZero_of_eqv heqv
      rw [heq]
      cases s <;> decide +kernel
    · rename_i hne
      have hk : m.units / one ≠ 0 := by
        obtain ⟨hintegral, -⟩ := Bool.and_eq_true_iff.mp h
        have hunits := Nat.div_mul_cancel (Nat.dvd_of_mod_eq_zero (beq_iff_eq.mp hintegral))
        intro hk
        rw [hk, Nat.zero_mul] at hunits
        refine hne (beq_iff_eq.mpr ?_)
        unfold signedUnits
        rw [← hunits]
        cases negative <;> rfl
      unfold toText
      dsimp only
      rw [if_pos h]
      unfold truncate
      dsimp only
      generalize m.units / one = k at hk ⊢
      apply String.toList_injective
      rw [String.toList_append, toList_intText]
      have htext : (toString k).toList = Nat.toDigits 10 k := Nat.toList_repr
      cases negative with
      | false => rw [if_neg Bool.false_ne_true, if_pos (Int.natCast_nonneg k), htext]; rfl
      | true => rw [if_pos rfl, if_neg (by omega), htext, Int.natAbs_neg]; rfl

/-- The text of an integral number is read as the number again. -/
theorem ofLiteral?_intText (h : n.isExactInteger = true) :
    ofLiteral? (toString n.truncate) = some n.withoutZeroSign := by
  have hint : ofDecimal (decide (n.truncate < 0)) n.truncate.natAbs 0 = ofInt n.truncate := by
    rw [ofDecimal_eq_ofUnits, Int.neg_zero, Int.toNat_zero, Nat.pow_zero, Nat.mul_one]
    rfl
  have hfinite := withoutZeroSign_isFinite (isFinite_of_isExactInteger h)
  rw [← ofInt_truncate h, ← hint] at hfinite ⊢
  have hread := ofLiteral?_of_isDecimal (isDecimal_intText n.truncate) hfinite
  rwa [String.ofList_toList] at hread

end Number

/-! ## 3. There and back -/

/-- A number is accepted, and a text is given back. -/
def WrittenAs (ctx : Context) (ref : SchemaRef) (n : Number) (text : String) : Prop :=
  ∃ r, validate ctx (.number n) ref = .ok r ∧ r.isOk = true ∧ r.sanitized = some (.string text)

/-- Without rules a number is taken for its text in lower case. -/
theorem writtenAs_format {ctx : Context} {ref : SchemaRef}
    (unruled : ctx.schemas.resolve? ref = some (.string {})) (n : Number) :
    WrittenAs ctx ref n n.format.toLower := by
  unfold WrittenAs validate walk
  rw [unruled]
  exact ⟨_, rfl, rfl, rfl⟩

/-- Without rules, the text of a number is its format in lower case. -/
theorem writtenAs_iff {ctx : Context} {ref : SchemaRef}
    (unruled : ctx.schemas.resolve? ref = some (.string {})) {n : Number} {text : String} :
    WrittenAs ctx ref n text ↔ text = n.format.toLower := by
  constructor
  · rintro ⟨r, hr, -, htext⟩
    obtain ⟨s, hs, -, hformat⟩ := writtenAs_format unruled n
    cases hr.symm.trans hs
    cases htext.symm.trans hformat
    rfl
  · rintro rfl
    exact writtenAs_format unruled n

/-- An integral number below 2 ^ 53 in magnitude that a string schema without rules takes for a text
is written as its integer, and a number schema without rules coerces the text back to the number,
zero without its sign.  So numbers that are written alike are equal. -/
theorem validate_integer_back (ctx : Context) (texts numbers : SchemaRef)
    (unruledText : ctx.schemas.resolve? texts = some (.string {}))
    (unruledNumber : ctx.schemas.resolve? numbers = some (.number {})) :
    (∀ n : Number, n.isExactInteger = true → ∃ text, WrittenAs ctx texts n text ∧
      text = toString n.truncate ∧ ReadAs ctx numbers text n.withoutZeroSign) ∧
    ∀ m n : Number, m.isExactInteger = true → n.isExactInteger = true → ∀ text,
      WrittenAs ctx texts m text → WrittenAs ctx texts n text → m.eqv n = true := by
  have hwritten (n : Number) (h : n.isExactInteger = true) :
      n.format.toLower = toString n.truncate := by
    rw [Number.format_of_isExactInteger h, Number.toLower_intText]
  refine ⟨fun n h => ?_, fun m n hm hn text htext htext' => ?_⟩
  · refine ⟨toString n.truncate, (writtenAs_iff unruledText).mpr (hwritten n h).symm, rfl, ?_⟩
    exact readAs_of_ofLiteral? unruledNumber (Number.ofLiteral?_intText h)
  · rw [writtenAs_iff unruledText, hwritten m hm] at htext
    rw [writtenAs_iff unruledText, hwritten n hn] at htext'
    -- The text is read as the one number and as the other.
    have hread := Number.ofLiteral?_intText hm
    rw [← htext, htext', Number.ofLiteral?_intText hn] at hread
    exact Number.eqv_of_withoutZeroSign (Number.isFinite_of_isExactInteger hm)
      (Option.some.inj hread).symm

/-- Minus zero and a number of sixteen digits go there and back. -/
theorem validate_integer_back_extremes :
    let ctx : Context := ⟨.null, {}, {}⟩
    let least : Number := .ofInt (-9007199254740991)
    WrittenAs ctx (.named "string") (.signedZero true) "0" ∧
    ReadAs ctx (.named "number") "0" .zero ∧
    WrittenAs ctx (.named "string") least "-9007199254740991" ∧
    ReadAs ctx (.named "number") "-9007199254740991" least := by
  intro ctx least
  obtain ⟨hback, -⟩ := validate_integer_back ctx (.named "string") (.named "number") rfl rfl
  obtain ⟨zeroText, hzero, hzeroText, hzeroBack⟩ := hback (.signedZero true) (by decide +kernel)
  obtain ⟨leastText, hleast, hleastText, hleastBack⟩ := hback least (by decide +kernel)
  obtain rfl : zeroText = "0" := hzeroText.trans (by decide +kernel)
  obtain rfl : leastText = "-9007199254740991" := hleastText.trans (by decide +kernel)
  have hleastSign : least.withoutZeroSign = least := by decide +kernel
  rw [hleastSign] at hleastBack
  exact ⟨hzero, hzeroBack, hleast, hleastBack⟩

end Conform
