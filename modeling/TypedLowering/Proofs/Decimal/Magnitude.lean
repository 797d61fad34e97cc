import Mathlib.Data.Nat.Digits.Defs
import TypedLowering.Lowering.NumericText
import TypedLowering.Proofs.Decimal.Integer

/-!
Doubles nearest to natural numbers of any size. Up to 53 bits the double is the number itself; a
larger number never comes down below 2⁵³ again, so what is read through a double is right as long as
only small results are taken.
-/
namespace TypedLowering
set_option autoImplicit false

@[simp] theorem NumericText.natAbs_signed (negative : Bool) (n : Nat) :
    (signed negative n).natAbs = n := by
  cases negative <;> simp [signed]

namespace Binary64
open NumericText (signed natAbs_signed)

/-- The magnitude bits of 2⁵³. -/
def largeBits : Nat := 1076 * leadingBit

variable {p : Bool} {n k m : Nat} {i : Int}

/-! ## Small numbers -/

theorem toInt?_zero (p : Bool) : (ofMagnitude p 0).toInt? = some 0 := by
  cases p <;> decide

/-- A number of up to 53 bits is read back. -/
theorem toInt?_ofMagnitude_small (p : Bool) (h : n < 2 ^ 53) :
    (ofMagnitude p (roundRatio n 1)).toInt? = some (signed p n) := by
  by_cases hn : n = 0
  · subst hn
    rw [show roundRatio 0 1 = 0 from rfl, toInt?_zero]
    cases p <;> rfl
  have hsign : decide (signed p n < 0) = p := by
    cases p with
    | false => simp [signed]
    | true =>
      simp only [signed, if_true, decide_eq_true_eq]
      omega
  have hof : ofInt (signed p n) = ofMagnitude p (roundRatio n 1) := by
    rw [ofInt, hsign, natAbs_signed]
  rw [← hof]
  exact toInt?_ofInt (by rwa [natAbs_signed])

/-! ## Large numbers -/

theorem infinityBits_lt : infinityBits < signBit := by decide

/-- Magnitude bits from those of 2⁵³ on stand for no smaller integer. -/
theorem le_natAbs_of_toInt? (hlower : largeBits ≤ m) (hupper : m ≤ infinityBits)
    (h : (ofMagnitude p m).toInt? = some i) : 2 ^ 53 ≤ i.natAbs := by
  have hlt : m < signBit := hupper.trans_lt infinityBits_lt
  have hmod : (ofMagnitude p m).bits.toNat % signBit = m := by
    rw [toNat_bits_ofMagnitude p hlt]
    split
    · rw [Nat.add_mod_right, Nat.mod_eq_of_lt hlt]
    · exact Nat.mod_eq_of_lt hlt
  have hbiased : 1076 ≤ m / leadingBit := (Nat.le_div_iff_mul_le (by decide)).mpr hlower
  unfold toInt? meaning at h
  dsimp only at h
  rw [hmod] at h
  by_cases hinfinite : m / leadingBit = 2047
  · rw [if_pos hinfinite] at h
    by_cases hfraction : m % leadingBit = 0
    · rw [if_pos hfraction] at h
      cases h
    · rw [if_neg hfraction] at h
      cases h
  · rw [if_neg hinfinite, if_neg (by omega)] at h
    -- the exponent is positive, so the mantissa with its leading bit is multiplied
    obtain ⟨e, he⟩ := Nat.exists_eq_add_of_le hbiased
    have hexponent : minExponent + ((m / leadingBit - 1 : Nat) : Int) = ((e + 1 : Nat) : Int) := by
      rw [minExponent, he]
      omega
    have hneg : (-((e + 1 : Nat) : Int)).toNat = 0 := by omega
    dsimp only at h
    rw [hexponent, hneg, Int.toNat_natCast, Nat.shiftLeft_eq, Nat.shiftLeft_zero, Nat.mod_one,
      if_pos rfl, Nat.div_one] at h
    have hi : i.natAbs = (m % leadingBit + leadingBit) * 2 ^ (e + 1) := by
      cases h
      exact natAbs_signed ..
    rw [hi]
    calc 2 ^ 53 = leadingBit * 2 ^ 1 := by decide
      _ ≤ (m % leadingBit + leadingBit) * 2 ^ (e + 1) :=
        Nat.mul_le_mul (Nat.le_add_left ..) (Nat.pow_le_pow_right (by decide) (by omega))

theorem le_roundEven (num den : Nat) : num / den ≤ roundEven num den := by
  unfold roundEven
  dsimp only
  split
  · exact le_refl _
  · split <;> omega

theorem roundRatio_le (num den : Nat) : roundRatio num den ≤ infinityBits := by
  unfold roundRatio
  split
  · exact Nat.zero_le _
  · exact Nat.min_le_right ..

/-- Rounding to 53 bits does not bring a number of more bits below 2⁵³. -/
theorem largeBits_le_roundRatio (h : 2 ^ 53 ≤ n) : largeBits ≤ roundRatio n 1 := by
  have hn : n ≠ 0 := by omega
  have hlog : 53 ≤ n.log2 := (Nat.le_log2 hn).mpr h
  obtain ⟨e, he⟩ := Nat.exists_eq_add_of_le hlog
  have hone : (1 : Nat).log2 = 0 := by rw [Nat.log2_def]; rfl
  have hguess : (n.log2 : Int) - ((1 : Nat).log2 : Int) - 52 = ((e + 1 : Nat) : Int) := by
    rw [hone, he]
    omega
  have hneg : (-((e + 1 : Nat) : Int)).toNat = 0 := by omega
  have hscaled : scaled n 1 ((e + 1 : Nat) : Int) = (n, 2 ^ (e + 1)) := by
    rw [scaled, hneg, Int.toNat_natCast, Nat.shiftLeft_zero, Nat.shiftLeft_eq, Nat.one_mul]
  have hmantissa : leadingBit * 2 ^ (e + 1) ≤ n := by
    calc leadingBit * 2 ^ (e + 1) = 2 ^ (53 + e) := by
          rw [show leadingBit = 2 ^ 52 from rfl, ← Nat.pow_add]
          congr 1
          omega
      _ ≤ n := he ▸ Nat.log2_self_le hn
  have hexponent : exponentFor n 1 = ((e + 1 : Nat) : Int) := by
    unfold exponentFor
    rw [hguess]
    dsimp only
    rw [hscaled]
    dsimp only
    rw [if_neg (by omega), minExponent]
    omega
  have hquotient : leadingBit ≤ roundEven n (2 ^ (e + 1)) :=
    ((Nat.le_div_iff_mul_le (Nat.two_pow_pos _)).mpr hmantissa).trans (le_roundEven ..)
  have hbiased : (((e + 1 : Nat) : Int) - minExponent).toNat = e + 1075 := by
    rw [minExponent]
    omega
  unfold roundRatio
  rw [if_neg hn, hexponent]
  dsimp only
  rw [hscaled]
  dsimp only
  rw [hbiased]
  refine Nat.le_min.mpr ⟨?_, by decide⟩
  calc largeBits = 1075 * leadingBit + leadingBit := by decide
    _ ≤ (e + 1075) * leadingBit + roundEven n (2 ^ (e + 1)) :=
      Nat.add_le_add (Nat.mul_le_mul_right _ (by omega)) hquotient

/-! ## Decimals -/

/-- A decimal with more than 400 places before the point is beyond all doubles. -/
theorem le_mul_pow_of_length (hn : n ≠ 0) (h : 400 < (k : Int) + (Nat.toDigits 10 n).length) :
    2 ^ 53 ≤ n * 10 ^ k := by
  obtain ⟨l, hl⟩ : ∃ l, (Nat.toDigits 10 n).length = l + 1 :=
    Nat.exists_eq_succ_of_ne_zero Nat.length_toDigits_pos.ne'
  have hlead : 10 ^ l ≤ n := by
    by_cases hzero : l = 0
    · subst hzero
      omega
    · by_contra hlt
      have hlength := (Nat.length_toDigits_le_iff (b := 10) (by decide) (Nat.pos_of_ne_zero hzero)).mpr
        (by omega : n < 10 ^ l)
      omega
  calc 2 ^ 53 ≤ 10 ^ 16 := by decide
    _ ≤ 10 ^ (l + k) := Nat.pow_le_pow_right (by decide) (by omega)
    _ = 10 ^ l * 10 ^ k := Nat.pow_add ..
    _ ≤ n * 10 ^ k := Nat.mul_le_mul_right _ hlead

/-- The magnitude bits of an integer written with an exponent: those of its value, or infinity if it
is beyond all doubles. -/
theorem ofDecimal_cases (p : Bool) (n k : Nat) :
    ofDecimal p n k = ofMagnitude p (roundRatio (n * 10 ^ k) 1) ∨
      2 ^ 53 ≤ n * 10 ^ k ∧ ofDecimal p n k = infinity p := by
  unfold ofDecimal
  by_cases hn : n = 0
  · left
    rw [if_pos hn, hn, Nat.zero_mul]
    rfl
  rw [if_neg hn]
  dsimp only
  split
  · next htop => exact .inr ⟨le_mul_pow_of_length hn htop, rfl⟩
  · left
    have hneg : (-(k : Int)).toNat = 0 := by omega
    rw [if_neg (by omega), hneg, Int.toNat_natCast]
    rfl

/-- What an integer written with an exponent is read as through a double: itself if it has up to 53
bits, and else nothing smaller than that. -/
theorem toInt?_ofDecimal (p : Bool) (n k : Nat) :
    (n * 10 ^ k < 2 ^ 53 → (ofDecimal p n k).toInt? = some (signed p (n * 10 ^ k))) ∧
      (2 ^ 53 ≤ n * 10 ^ k → ∀ i, (ofDecimal p n k).toInt? = some i → 2 ^ 53 ≤ i.natAbs) := by
  rcases ofDecimal_cases p n k with h | ⟨hlarge, h⟩
  · rw [h]
    exact ⟨toInt?_ofMagnitude_small p, fun hlarge i hi =>
      le_natAbs_of_toInt? (largeBits_le_roundRatio hlarge) (roundRatio_le ..) hi⟩
  · rw [h]
    exact ⟨fun hsmall => absurd hlarge (by omega), fun _ i hi =>
      le_natAbs_of_toInt? (by decide) (le_refl _) hi⟩

end Binary64

end TypedLowering
