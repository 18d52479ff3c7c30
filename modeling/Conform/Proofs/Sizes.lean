import Conform.Pattern

/-!
# Sizes — what a compiled pattern can ask for

The parts of a sequence, a group and a required copy are all compiled, so an expression takes at
least what each of them takes (`Part.total_le`).  A choice is left out here: alternatives that are
sets become one set, which may take less than each of them.  Every pattern that is read is within
the bound, which bounds the copies that it can require (`Pattern.least_le`).
-/

namespace Conform.Regex

/-! ## 1. Comparing sizes -/

namespace Size

instance : LE Size := ⟨fun a b => a.forward ≤ b.forward ∧ a.backward ≤ b.backward⟩

variable {a b c : Size} {least : Nat}

theorem le_refl (a : Size) : a ≤ a := ⟨Nat.le_refl _, Nat.le_refl _⟩

theorem le_trans (hab : a ≤ b) (hbc : b ≤ c) : a ≤ c :=
  ⟨Nat.le_trans hab.1 hbc.1, Nat.le_trans hab.2 hbc.2⟩

theorem le_add_right (a b : Size) : a ≤ a + b := ⟨Nat.le_add_right _ _, Nat.le_add_right _ _⟩

theorem le_add_left (a b : Size) : a ≤ b + a := ⟨Nat.le_add_left _ _, Nat.le_add_left _ _⟩

theorem le_alone (a : Size) : a ≤ a.alone := ⟨Nat.le_max_right _ _, Nat.le_max_right _ _⟩

theorem alone_le_alone (h : a ≤ b) : a.alone ≤ b.alone := by
  obtain ⟨hforward, hbackward⟩ := h
  show max 32 a.forward ≤ max 32 b.forward ∧ max 32 a.backward ≤ max 32 b.backward
  omega

theorem le_times (a : Size) (h : 0 < least) : a ≤ a.times least :=
  ⟨Nat.le_mul_of_pos_left _ h, Nat.le_mul_of_pos_left _ h⟩

/-- The required copies are compiled one behind the other, whatever follows them. -/
theorem times_le_repeated (a : Size) (consumes : Bool) (least : Nat) (most : Option Nat) :
    a.times least ≤ a.repeated consumes least most := by
  have hnone (b : Size) : a.times 0 ≤ b := by
    show 0 * a.forward ≤ b.forward ∧ 0 * a.backward ≤ b.backward
    omega
  unfold repeated
  split
  · exact hnone _
  · exact hnone _
  · exact le_add_right _ _
  · split
    · exact le_refl _
    · exact le_trans (le_alone _) (le_trans (le_add_right _ _) (le_add_right _ _))

end Size

/-! ## 2. Parts -/

/-- A part that is compiled wherever the whole expression is. -/
inductive Part (part : Regex) : Regex → Prop where
  | itself : Part part part
  | group {a : Regex} : Part part a → Part part (.group a)
  | left {a b : Regex} : Part part a → Part part (.seq a b)
  | right {a b : Regex} : Part part b → Part part (.seq a b)
  | copy {a : Regex} {least : Nat} {most : Option Nat} :
    Part part a → 0 < least → takesNothing a = false → Part part (.repetition a least most)

variable {part a r : Regex} {least : Nat} {most : Option Nat}

/-- A repetition of what takes characters is compiled copy by copy. -/
theorem total_repetition (h : takesNothing a = false) :
    (choice (.repetition a least most)).total =
      (choice a).total.alone.repeated (consumes a) least most := by
  rw [choice, if_neg (Bool.eq_false_iff.mp h)]
  rfl

/-- The estimate of an expression covers that of its parts. -/
theorem Part.allowance_le (h : Part part r) : part.allowance ≤ r.allowance := by
  induction h with
  | itself => exact Nat.le_refl _
  | group _ ih => exact Nat.le_trans ih (Nat.le_add_right _ _)
  | left _ ih =>
    rw [allowance]
    omega
  | right _ ih =>
    rw [allowance]
    omega
  | @copy a least most _ hleast _ ih =>
    have hcopies : a.allowance + 0x80 ≤
        (a.allowance + 0x80) * max (max 1 least) (most.getD 0) :=
      Nat.le_mul_of_pos_right _ (by omega)
    rw [allowance]
    omega

/-- An expression takes what each of its parts takes. -/
theorem Part.total_le (h : Part part r) : (choice part).total.alone ≤ (choice r).total.alone := by
  induction h with
  | itself => exact Size.le_refl _
  | group _ ih => exact Size.le_trans ih (Size.le_trans (Size.le_add_right _ _) (Size.le_alone _))
  | left _ ih => exact Size.le_trans ih (Size.alone_le_alone (Size.le_add_right _ _))
  | right _ ih => exact Size.le_trans ih (Size.alone_le_alone (Size.le_add_left _ _))
  | copy _ hleast hsome ih =>
    rw [total_repetition hsome]
    exact Size.le_trans ih <| Size.le_trans (Size.le_times _ hleast) <|
      Size.le_trans (Size.times_le_repeated _ _ _ _) (Size.le_alone _)

/-! ## 3. The bound -/

theorem fits_iff : r.fits = true ↔ r.allowance ≤ maxSize ∨ r.size ≤ .both maxSize := by
  rw [fits, Bool.or_eq_true, Bool.and_eq_true, decide_eq_true_eq, decide_eq_true_eq,
    decide_eq_true_eq]
  rfl

/-- A part of an expression within the bound is within the bound. -/
theorem Part.fits (h : Part part r) (hfits : r.fits = true) : part.fits = true := by
  rw [fits_iff] at hfits ⊢
  obtain hallowance | hsize := hfits
  · exact .inl (Nat.le_trans h.allowance_le hallowance)
  · have htotal := h.total_le
    refine .inr ⟨?_, ?_⟩
    · exact Nat.le_trans (Nat.add_le_add_right htotal.1 _) hsize.1
    · exact Nat.le_trans (Nat.add_le_add_right htotal.2 _) hsize.2

/-- Every copy that takes a character has a state of its own. -/
theorem least_le_of_fits (h : takesNothing a = false)
    (hfits : (Regex.repetition a least most).fits = true) : 32 * least ≤ maxSize := by
  obtain hallowance | hsize := fits_iff.mp hfits
  · -- Also the estimate counts each copy.
    have hcopies : 0x80 * least ≤ (a.allowance + 0x80) * max (max 1 least) (most.getD 0) :=
      Nat.mul_le_mul (Nat.le_add_left _ _) (by omega)
    rw [allowance] at hallowance
    omega
  · have hcopies : 32 * least ≤ least * (choice a).total.alone.forward := by
      rw [Nat.mul_comm]
      exact Nat.mul_le_mul_left least (Nat.le_max_left _ _)
    have htotal : (choice a).total.alone.times least ≤
        (choice (.repetition a least most)).total := by
      rw [total_repetition h]
      exact Size.times_le_repeated _ _ _ _
    calc 32 * least
      _ ≤ ((choice a).total.alone.times least).forward := hcopies
      _ ≤ (choice (.repetition a least most)).total.forward := htotal.1
      _ ≤ (choice (.repetition a least most)).total.alone.forward := (Size.le_alone _).1
      _ ≤ (Regex.repetition a least most).size.forward := Nat.le_add_right _ _
      _ ≤ maxSize := hsize.1

/-- What is read is within the bound. -/
theorem fits_of_read {flags : Flags} {text : String} (h : read flags text = .ok r) :
    r.fits = true := by
  change (readFrom (text.toList.length + 1) { text := text.toList, flags := flags } >>=
    fun r => if r.fits then .ok r else .error Fault.tooLarge) = .ok r at h
  cases hfrom : readFrom (text.toList.length + 1) { text := text.toList, flags := flags } with
  | error fault =>
    rw [hfrom] at h
    cases h
  | ok s =>
    rw [hfrom] at h
    change (if s.fits then Except.ok s else Except.error Fault.tooLarge) = .ok r at h
    split at h
    · rename_i hfits
      cases h
      exact hfits
    · cases h

end Conform.Regex

namespace Conform

open Regex

namespace Pattern

/-- Every pattern is within the bound. -/
theorem fits (p : Pattern) : p.regex.fits = true := fits_of_read p.compiled

/-- No part of a pattern asks for more copies than a program has place for. -/
theorem least_le (p : Pattern) {a : Regex} {least : Nat} {most : Option Nat}
    (hpart : Part (.repetition a least most) p.regex) (h : takesNothing a = false) :
    32 * least ≤ maxSize :=
  least_le_of_fits h (hpart.fits p.fits)

end Pattern
end Conform
