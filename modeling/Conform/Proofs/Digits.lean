import Mathlib.Algebra.Group.Nat.Defs
import Mathlib.Data.List.Induction
import Conform.Number.Decimal

/-!
# Digits — natural numbers in positional notation

Digits of a radix, the greatest place first and with any number of leading zeros, spell a natural
number (`Number.Spells`).  The readers of digits read just what is spelled
(`radixNat?_of_spells`, `digitsToNat_of_spells`), and every number is spelled by the digits that
it is written in (`spells_toDigits`).
-/

namespace Conform.Number

def IsDigit (radix : Nat) (c : Char) (value : Nat) : Prop :=
  value < radix ∧ (c = Nat.digitChar value ∨ c = (Nat.digitChar value).toUpper)

/-- Digits of a radix that spell a natural number. -/
inductive Spells (radix : Nat) : List Char → Nat → Prop
  | nil : Spells radix [] 0
  | snoc {digits : List Char} {n : Nat} {c : Char} {value : Nat} (before : Spells radix digits n)
      (last : IsDigit radix c value) : Spells radix (digits ++ [c]) (radix * n + value)

variable {radix n m value : Nat} {c : Char} {digits : List Char}

/-! ## 1. Digits -/

/-- A digit of a radix is a hexadecimal digit whose value the radix admits. -/
theorem digitValue?_of_le (hradix : radix ≤ 16) (c : Char) :
    digitValue? radix c = (digitValue? 16 c).filter (· < radix) := by
  unfold digitValue?
  dsimp only
  generalize (if '0' ≤ c ∧ c ≤ '9' then some (c.toNat - '0'.toNat)
    else if 'a' ≤ c ∧ c ≤ 'f' then some (c.toNat - 'a'.toNat + 10)
    else if 'A' ≤ c ∧ c ≤ 'F' then some (c.toNat - 'A'.toNat + 10)
    else none) = given
  cases given with
  | none => rfl
  | some v =>
    by_cases hv : v < radix
    · simp [Option.filter, hv, Nat.lt_of_lt_of_le hv hradix]
    · by_cases hv' : v < 16 <;> simp [Option.filter, hv, hv']

theorem digitValue?_digitChar :
    ∀ v < 16, digitValue? 16 (Nat.digitChar v) = some v ∧
      digitValue? 16 (Nat.digitChar v).toUpper = some v := by
  decide

/-- A value is written by one digit, in either case. -/
theorem eq_digitChar_of_digitValue? (h : digitValue? 16 c = some value) :
    c = Nat.digitChar value ∨ c = (Nat.digitChar value).toUpper := by
  -- The digits are among the first characters, which can be gone through.
  have hfirst : ∀ code < 103, (digitValue? 16 (Char.ofNat code)).all fun v =>
      decide (Char.ofNat code = Nat.digitChar v ∨ Char.ofNat code = (Nat.digitChar v).toUpper) := by
    decide +kernel
  have hcode : c.toNat < 103 := by
    refine Nat.lt_of_not_le fun hcode => ?_
    have hnone : digitValue? 16 c = none := by
      have hpast (low high : Char) (hhigh : high.toNat < 103) : ¬(low ≤ c ∧ c ≤ high) :=
        fun ⟨_, hc⟩ => Nat.not_le_of_lt (Nat.lt_of_le_of_lt hc hhigh) hcode
      unfold digitValue?
      dsimp only
      rw [if_neg (hpast '0' '9' (by decide)), if_neg (hpast 'a' 'f' (by decide)),
        if_neg (hpast 'A' 'F' (by decide))]
      rfl
    rw [hnone] at h
    cases h
  have hc := hfirst c.toNat hcode
  rw [Char.ofNat_toNat, h] at hc
  exact of_decide_eq_true hc

/-- A digit has the value that it stands for. -/
theorem digitValue?_eq_some_iff (hradix : radix ≤ 16) :
    digitValue? radix c = some value ↔ IsDigit radix c value := by
  rw [digitValue?_of_le hradix, Option.filter_eq_some_iff]
  constructor
  · rintro ⟨h, hlt⟩
    exact ⟨of_decide_eq_true hlt, eq_digitChar_of_digitValue? h⟩
  · rintro ⟨hlt, h⟩
    obtain ⟨hlower, hupper⟩ := digitValue?_digitChar value (Nat.lt_of_lt_of_le hlt hradix)
    refine ⟨?_, decide_eq_true hlt⟩
    rcases h with rfl | rfl
    · exact hlower
    · exact hupper

theorem isDecimalDigit_iff : isDecimalDigit c = true ↔ ∃ v, IsDigit 10 c v := by
  constructor
  · intro h
    obtain ⟨hlower, hupper⟩ : '0' ≤ c ∧ c ≤ '9' := by
      simpa [isDecimalDigit] using h
    refine ⟨c.toNat - '0'.toNat, (digitValue?_eq_some_iff (by decide)).mp ?_⟩
    have hlt : c.toNat - '0'.toNat < 10 := by
      have : c.toNat ≤ '9'.toNat := hupper
      have hnine : '9'.toNat = 57 := rfl
      have hzero : '0'.toNat = 48 := rfl
      omega
    unfold digitValue?
    dsimp only
    rw [if_pos ⟨hlower, hupper⟩]
    exact Option.filter_some_pos (decide_eq_true hlt)
  · rintro ⟨v, hv, hc⟩
    have hdigit : ∀ v < 10, isDecimalDigit (Nat.digitChar v) = true ∧
        isDecimalDigit (Nat.digitChar v).toUpper = true := by
      decide
    rcases hc with rfl | rfl
    · exact (hdigit v hv).1
    · exact (hdigit v hv).2

/-- The value of a decimal digit is the distance of its character from that of zero. -/
theorem IsDigit.value_eq (h : IsDigit 10 c value) : c.toNat - '0'.toNat = value := by
  have hdistance : ∀ v < 10, (Nat.digitChar v).toNat - '0'.toNat = v ∧
      (Nat.digitChar v).toUpper.toNat - '0'.toNat = v := by
    decide
  obtain ⟨hv, rfl | rfl⟩ := h
  · exact (hdistance value hv).1
  · exact (hdistance value hv).2

theorem isDigit_digitChar (h : value < radix) : IsDigit radix (Nat.digitChar value) value :=
  ⟨h, .inl rfl⟩

/-! ## 2. Digits in a row -/

/-- Digits behind others shift these to the left. -/
theorem Spells.append {more : List Char} (h : Spells radix digits n)
    (hmore : Spells radix more m) :
    Spells radix (digits ++ more) (n * radix ^ more.length + m) := by
  induction hmore with
  | nil => simpa using h
  | @snoc more m c value _ last ih =>
    have hsnoc := ih.snoc last
    rw [List.append_assoc] at hsnoc
    have hn : radix * (n * radix ^ more.length + m) + value =
        n * radix ^ (more ++ [c]).length + (radix * m + value) := by
      rw [List.length_append, List.length_singleton, Nat.pow_succ, Nat.mul_add, Nat.add_assoc,
        Nat.mul_left_comm, Nat.mul_comm radix]
    rwa [hn] at hsnoc

/-- Digits spell less than the power of the radix that follows them. -/
theorem Spells.lt_pow (h : Spells radix digits n) : n < radix ^ digits.length := by
  induction h with
  | nil => exact Nat.one_pos
  | @snoc digits n c value _ last ih =>
    have hle : radix * (n + 1) ≤ radix * radix ^ digits.length := Nat.mul_le_mul_left radix ih
    have hvalue := last.1
    rw [Nat.mul_add, Nat.mul_one] at hle
    rw [List.length_append, List.length_singleton, Nat.pow_succ']
    omega

theorem spells_singleton (h : IsDigit radix c value) : Spells radix [c] value := by
  have hsnoc := Spells.nil.snoc h
  rwa [Nat.mul_zero, Nat.zero_add] at hsnoc

theorem spells_zeros (hradix : 0 < radix) (count : Nat) :
    Spells radix (List.replicate count '0') 0 := by
  induction count with
  | zero => exact .nil
  | succ count ih =>
    rw [List.replicate_succ']
    exact ih.snoc (isDigit_digitChar hradix)

/-- Leading zeros count for nothing. -/
theorem Spells.zeros_append (hradix : 0 < radix) (count : Nat) (h : Spells radix digits n) :
    Spells radix (List.replicate count '0' ++ digits) n := by
  have happend := (spells_zeros hradix count).append h
  rwa [Nat.zero_mul, Nat.zero_add] at happend

/-- A number is spelled by the digits that it is written in. -/
theorem spells_toDigits (hradix : 1 < radix) (n : Nat) : Spells radix (Nat.toDigits radix n) n := by
  induction n using Nat.strongRecOn with
  | ind n ih =>
    by_cases hn : n < radix
    · rw [Nat.toDigits_of_lt_base hn]
      exact spells_singleton (isDigit_digitChar hn)
    · have hle : radix ≤ n := Nat.le_of_not_lt hn
      have hless : n / radix < n := Nat.div_lt_self (by omega) hradix
      rw [Nat.toDigits_of_base_le hradix hle]
      have hsnoc := (ih (n / radix) hless).snoc
        (isDigit_digitChar (Nat.mod_lt n (by omega : 0 < radix)))
      rwa [Nat.div_add_mod] at hsnoc

/-- An integer is written in its digits, behind its sign if it is negative. -/
theorem toList_intText (i : Int) : (toString i).toList =
    if 0 ≤ i then Nat.toDigits 10 i.natAbs else '-' :: Nat.toDigits 10 i.natAbs := by
  change i.repr.toList = _
  rw [Int.repr_eq_if]
  split
  · rw [Nat.toList_repr, show i.toNat = i.natAbs by omega]
  · rw [String.toList_append, Nat.toList_repr, show (-i).toNat = i.natAbs by omega]
    rfl

theorem isDecimalDigit_of_spells (h : Spells 10 digits n) : ∀ c ∈ digits, isDecimalDigit c := by
  induction h with
  | nil => exact fun c hc => absurd hc List.not_mem_nil
  | snoc _ last ih =>
    rw [List.forall_mem_append, List.forall_mem_singleton]
    exact ⟨ih, isDecimalDigit_iff.mpr ⟨_, last⟩⟩

/-! ## 3. Readers of digits -/

theorem digitsToNat_append_singleton (digits : List Char) (c : Char) :
    digitsToNat (digits ++ [c]) = 10 * digitsToNat digits + (c.toNat - '0'.toNat) := by
  unfold digitsToNat
  rw [List.foldl_append]
  rfl

theorem digitsToNat_of_spells (h : Spells 10 digits n) : digitsToNat digits = n := by
  induction h with
  | nil => rfl
  | snoc _ last ih => rw [digitsToNat_append_singleton, ih, last.value_eq]

/-- Decimal digits spell the number that they are read as. -/
theorem spells_digitsToNat (h : ∀ c ∈ digits, isDecimalDigit c) :
    Spells 10 digits (digitsToNat digits) := by
  -- The last digit is the one that is read last.
  induction digits using List.reverseRecOn with
  | nil => exact .nil
  | append_singleton digits c ih =>
    rw [List.forall_mem_append, List.forall_mem_singleton] at h
    obtain ⟨value, hc⟩ := isDecimalDigit_iff.mp h.2
    rw [digitsToNat_append_singleton, hc.value_eq]
    exact (ih h.1).snoc hc

/-- No number but zero begins with the digit zero. -/
theorem toDigits_ne_zero_cons {n : Nat} {d : Char} {digits : List Char} :
    Nat.toDigits 10 n ≠ '0' :: d :: digits := by
  intro h
  have hall : ∀ c ∈ '0' :: d :: digits, isDecimalDigit c :=
    h ▸ isDecimalDigit_of_spells (spells_toDigits (by decide) n)
  -- The zero adds nothing to the value, so that one digit less would do.
  have hzero : digitsToNat ('0' :: d :: digits) = digitsToNat (d :: digits) := rfl
  have hvalue : digitsToNat ('0' :: d :: digits) = n :=
    h ▸ digitsToNat_of_spells (spells_toDigits (by decide) n)
  have hless := (spells_digitsToNat (List.forall_mem_cons.mp hall).2).lt_pow
  rw [← hzero, hvalue] at hless
  have hlength := (Nat.length_toDigits_le_iff (by decide) (Nat.succ_pos _)).mpr hless
  rw [h] at hlength
  exact absurd hlength (Nat.not_succ_le_self _)

section Fold

variable {α : Type} {step : α → Nat → α} {init : α}

/-- What is folded over digits takes in their values one by one. -/
theorem foldlM_digits_snoc (digits : List Char) (c : Char) :
    (digits ++ [c]).foldlM (fun a c => (digitValue? radix c).map (step a)) init =
      (digits.foldlM (fun a c => (digitValue? radix c).map (step a)) init).bind fun a =>
        (digitValue? radix c).map (step a) := by
  rw [List.foldlM_append]
  congr
  funext a
  rw [List.foldlM_cons]
  cases digitValue? radix c <;> rfl

/-- It comes to an end where all characters are digits. -/
theorem foldlM_digits_isSome_iff (hradix : radix ≤ 16) :
    (digits.foldlM (fun a c => (digitValue? radix c).map (step a)) init).isSome = true ↔
      ∃ n, Spells radix digits n := by
  induction digits using List.reverseRecOn with
  | nil => exact iff_of_true rfl ⟨0, .nil⟩
  | append_singleton digits c ih =>
    rw [foldlM_digits_snoc]
    constructor
    · intro h
      obtain ⟨b, hb⟩ := Option.isSome_iff_exists.mp h
      obtain ⟨a, ha, hc⟩ := Option.bind_eq_some_iff.mp hb
      obtain ⟨value, hvalue, -⟩ := Option.map_eq_some_iff.mp hc
      obtain ⟨n, hn⟩ := ih.mp (Option.isSome_of_eq_some ha)
      exact ⟨_, hn.snoc ((digitValue?_eq_some_iff hradix).mp hvalue)⟩
    · rintro ⟨_, hspells⟩
      generalize hall : digits ++ [c] = all at hspells
      cases hspells with
      | nil => exact absurd hall (List.append_ne_nil_of_right_ne_nil _ (List.cons_ne_nil _ _))
      | snoc before last =>
        obtain ⟨rfl, hc⟩ := List.append_inj' hall rfl
        obtain rfl := List.singleton_inj.mp hc
        obtain ⟨a, ha⟩ := Option.isSome_iff_exists.mp (ih.mpr ⟨_, before⟩)
        rw [ha, Option.bind_some, (digitValue?_eq_some_iff hradix).mpr last]
        rfl

end Fold

theorem radixNat?_of_spells (hradix : radix ≤ 16) (hdigits : digits ≠ [])
    (h : Spells radix digits n) : radixNat? radix digits = some n := by
  have hfold : digits.foldlM (fun a c => (digitValue? radix c).map (radix * a + ·)) 0 = some n := by
    clear hdigits
    induction h with
    | nil => rfl
    | snoc _ last ih =>
      rw [foldlM_digits_snoc, ih, Option.bind_some,
        (digitValue?_eq_some_iff hradix).mpr last]
      rfl
  cases digits with
  | nil => exact absurd rfl hdigits
  | cons c rest => exact hfold

end Conform.Number
