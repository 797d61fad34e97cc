import Mathlib.Tactic.Ring
import TypedLowering.Decimal.Binary64

/-!
Integers among the doubles. An integer of up to 53 bits is a double: its magnitude is shifted until
the leading bit is the one that a normal double leaves out, so nothing is rounded off.
-/
namespace TypedLowering
set_option autoImplicit false

namespace Binary64

/-- The shift that brings the leading bit of a natural number to its place in a double. -/
def shiftOf (n : Nat) : Nat := 52 - n.log2

variable {n : Nat}

theorem shifted_bounds (hn : n ≠ 0) (h : n < 2 ^ 53) :
    leadingBit ≤ n * 2 ^ shiftOf n ∧ n * 2 ^ shiftOf n < 2 * leadingBit := by
  have hlog : n.log2 < 53 := (Nat.log2_lt hn).mpr h
  have hsplit : 2 ^ n.log2 * 2 ^ shiftOf n = leadingBit := by
    rw [← Nat.pow_add, shiftOf, Nat.add_sub_cancel' (Nat.le_of_lt_succ hlog)]
    rfl
  constructor
  · rw [← hsplit]
    exact Nat.mul_le_mul_right _ (Nat.log2_self_le hn)
  · calc n * 2 ^ shiftOf n < 2 ^ (n.log2 + 1) * 2 ^ shiftOf n :=
          Nat.mul_lt_mul_of_pos_right Nat.lt_log2_self (Nat.two_pow_pos _)
      _ = 2 * leadingBit := by rw [← hsplit, Nat.pow_succ]; ring

theorem shiftOf_le (n : Nat) : shiftOf n ≤ 52 := Nat.sub_le ..

theorem scaled_natural (n : Nat) : scaled n 1 (-(shiftOf n : Int)) = (n * 2 ^ shiftOf n, 1) := by
  have hneg : (-(shiftOf n : Int)).toNat = 0 := by omega
  rw [scaled, Int.neg_neg, Int.toNat_natCast, hneg, Nat.shiftLeft_eq, Nat.shiftLeft_zero]

theorem exponentFor_natural (hn : n ≠ 0) (h : n < 2 ^ 53) :
    exponentFor n 1 = -(shiftOf n : Int) := by
  have hlog : n.log2 < 53 := (Nat.log2_lt hn).mpr h
  have hone : (1 : Nat).log2 = 0 := by rw [Nat.log2_def]; rfl
  have hguess : (n.log2 : Int) - ((1 : Nat).log2 : Int) - 52 = -(shiftOf n : Int) := by
    rw [shiftOf, hone]
    omega
  have hshift := shiftOf_le n
  have hbound := (shifted_bounds hn h).1
  unfold exponentFor
  rw [hguess]
  dsimp only
  rw [scaled_natural]
  dsimp only
  rw [if_neg (by omega), minExponent]
  omega

/-- The magnitude bits of a natural number: the exponent and, carrying its leading bit into it, the
mantissa. -/
theorem roundRatio_natural (hn : n ≠ 0) (h : n < 2 ^ 53) :
    roundRatio n 1 = (1074 - shiftOf n) * leadingBit + n * 2 ^ shiftOf n := by
  have hshift := shiftOf_le n
  obtain ⟨-, hupper⟩ := shifted_bounds hn h
  unfold roundRatio
  rw [if_neg hn, exponentFor_natural hn h]
  dsimp only
  rw [scaled_natural]
  have hexponent : (-(shiftOf n : Int) - minExponent).toNat = 1074 - shiftOf n := by
    rw [minExponent]
    omega
  have hround : roundEven (n * 2 ^ shiftOf n) 1 = n * 2 ^ shiftOf n := by
    simp [roundEven, Nat.mod_one]
  dsimp only
  rw [hexponent, hround]
  refine Nat.min_eq_left ?_
  have : (1074 - shiftOf n) * leadingBit ≤ 1074 * leadingBit :=
    Nat.mul_le_mul_right _ (Nat.sub_le ..)
  rw [infinityBits]
  omega

theorem toNat_bits_ofMagnitude (negative : Bool) {m : Nat} (h : m < signBit) :
    (ofMagnitude negative m).bits.toNat = m + if negative then signBit else 0 := by
  unfold ofMagnitude
  refine UInt64.toNat_ofNat_of_lt ?_
  have hsize : UInt64.size = 2 * signBit := rfl
  rw [hsize]
  split <;> omega

/-- The parts of the magnitude bits of a normal double. -/
theorem split_magnitude {e m : Nat} (hlower : leadingBit ≤ m) (hupper : m < 2 * leadingBit) :
    (e * leadingBit + m) / leadingBit = e + 1 ∧ (e * leadingBit + m) % leadingBit + leadingBit = m := by
  obtain ⟨r, rfl⟩ := Nat.exists_eq_add_of_le hlower
  have hr : r < leadingBit := by omega
  have hsum : e * leadingBit + (leadingBit + r) = r + leadingBit * (e + 1) := by ring
  rw [hsum, Nat.add_mul_div_left _ _ (by decide), Nat.div_eq_of_lt hr, Nat.add_mul_mod_self_left,
    Nat.mod_eq_of_lt hr]
  exact ⟨Nat.zero_add _, Nat.add_comm ..⟩

/-- The number that an integer of up to 53 bits becomes. -/
theorem meaning_ofInt {i : Int} (hi : i ≠ 0) (h : i.natAbs < 2 ^ 53) :
    (ofInt i).meaning =
      .finite (i < 0) (i.natAbs * 2 ^ shiftOf i.natAbs) (-(shiftOf i.natAbs : Int)) := by
  have hn : i.natAbs ≠ 0 := Int.natAbs_ne_zero.mpr hi
  obtain ⟨hlower, hupper⟩ := shifted_bounds hn h
  have hshift := shiftOf_le i.natAbs
  have hround := roundRatio_natural hn h
  have hlt : roundRatio i.natAbs 1 < signBit := by
    have : (1074 - shiftOf i.natAbs) * leadingBit ≤ 1074 * leadingBit :=
      Nat.mul_le_mul_right _ (Nat.sub_le ..)
    rw [hround]
    unfold leadingBit signBit at *
    omega
  obtain ⟨hbiased, hfraction⟩ := split_magnitude (e := 1074 - shiftOf i.natAbs) hlower hupper
  have hbits := toNat_bits_ofMagnitude (i < 0) hlt
  have hmod : (ofInt i).bits.toNat % signBit = roundRatio i.natAbs 1 := by
    rw [ofInt, hbits]
    split
    · rw [Nat.add_mod_right, Nat.mod_eq_of_lt hlt]
    · exact Nat.mod_eq_of_lt hlt
  have hsign : (ofInt i).negative = decide (i < 0) := by
    rw [negative, ofInt, hbits]
    by_cases hneg : i < 0
    · simp [hneg]
    · simpa [hneg] using hlt
  unfold meaning
  dsimp only
  rw [hmod, hsign, hround, hbiased, hfraction, if_neg (by omega), if_neg (by omega), minExponent]
  congr 1
  omega

/-- No bit of such an integer is lost. -/
theorem toInt?_ofInt {i : Int} (h : i.natAbs < 2 ^ 53) : (ofInt i).toInt? = some i := by
  by_cases hi : i = 0
  · subst hi
    rfl
  have hneg : (-(shiftOf i.natAbs : Int)).toNat = 0 := by omega
  unfold toInt?
  rw [meaning_ofInt hi h]
  dsimp only
  rw [hneg, Int.neg_neg, Int.toNat_natCast, Nat.shiftLeft_zero, Nat.shiftLeft_eq, Nat.one_mul,
    Nat.mul_mod_left, if_pos rfl, Nat.mul_div_cancel _ (Nat.two_pow_pos _)]
  congr 1
  split
  · next hsign =>
    rw [decide_eq_true_eq] at hsign
    omega
  · next hsign =>
    rw [decide_eq_true_eq] at hsign
    omega

end Binary64

end TypedLowering
