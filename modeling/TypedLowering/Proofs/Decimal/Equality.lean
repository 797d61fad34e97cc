import TypedLowering.Proofs.Decimal.Integer

/-!
Ordered equality of doubles, which compares the numbers that they stand for. Widening an integer for
it is exact: the integer equals a double if and only if the double is that integer.
-/
namespace TypedLowering
set_option autoImplicit false

namespace Binary64

/-- A finite double as a multiple of the least positive one. -/
def units (negative : Bool) (mantissa : Nat) (exponent : Int) : Int :=
  let magnitude : Int := (mantissa * 2 ^ (exponent - minExponent).toNat : Nat)
  if negative then -magnitude else magnitude

/-- Ordered equality: both zeros are equal, and what is not a number equals nothing. -/
def orderedEq (x y : Binary64) : Bool :=
  match x.meaning, y.meaning with
  | .infinite p, .infinite q => p == q
  | .finite p m e, .finite q n f => units p m e == units q n f
  | _, _ => false

variable {i : Int} {y : Binary64} {p : Bool} {m : Nat} {e : Int}

theorem minExponent_le (h : y.meaning = .finite p m e) : minExponent ≤ e := by
  unfold meaning at h
  dsimp only at h
  split at h
  · split at h <;> cases h
  · split at h <;> cases h <;> omega

/-! ## Integers -/

/-- The multiple of the least positive double that is one. -/
def unitsOfOne : Nat := 2 ^ (-minExponent).toNat

theorem pow_mul_pow {k : Nat} (h : k ≤ (-minExponent).toNat) :
    2 ^ k * 2 ^ ((-minExponent).toNat - k) = unitsOfOne := by
  rw [← Nat.pow_add, Nat.add_sub_cancel' h, unitsOfOne]

theorem units_ofInt (h : i.natAbs < 2 ^ 53) : ∃ p m e, (ofInt i).meaning = .finite p m e ∧
    units p m e = i * unitsOfOne := by
  by_cases hi : i = 0
  · subst hi
    exact ⟨false, 0, minExponent, rfl, by rw [units, Nat.zero_mul, Int.zero_mul]; rfl⟩
  have hshift : shiftOf i.natAbs ≤ (-minExponent).toNat := (shiftOf_le _).trans (by decide)
  refine ⟨_, _, _, meaning_ofInt hi h, ?_⟩
  have hexponent : (-(shiftOf i.natAbs : Int) - minExponent).toNat
      = (-minExponent).toNat - shiftOf i.natAbs := by omega
  unfold units
  rw [hexponent, Nat.mul_assoc, pow_mul_pow hshift, Nat.cast_mul]
  by_cases hsign : i < 0
  · rw [if_pos (decide_eq_true hsign), ← Int.neg_mul, Int.ofNat_natAbs_of_nonpos (by omega),
      Int.neg_neg]
  · rw [if_neg (by simpa using hsign), Int.natAbs_of_nonneg (by omega)]

/-- A quotient is a product, in any unit. -/
theorem div_eq_iff {a d c : Nat} (hd : 0 < d) (hc : 0 < c) :
    (a % d = 0 ∧ ((a / d : Nat) : Int) = i) ↔ ((a * c : Nat) : Int) = i * (d * c : Nat) := by
  constructor
  · rintro ⟨hmod, rfl⟩
    rw [← Nat.cast_mul, ← Nat.mul_assoc, Nat.div_mul_cancel (Nat.dvd_of_mod_eq_zero hmod)]
  · intro h
    rw [Nat.cast_mul, Nat.cast_mul, ← Int.mul_assoc] at h
    have ha : (a : Int) = i * d := Int.eq_of_mul_eq_mul_right (by omega) h
    have hi : 0 ≤ i := by
      by_contra hneg
      have : i * d < 0 := Int.mul_neg_of_neg_of_pos (by omega) (by omega)
      omega
    obtain ⟨n, rfl⟩ := Int.eq_ofNat_of_zero_le hi
    obtain rfl : a = n * d := by exact_mod_cast ha
    exact ⟨Nat.mul_mod_left _ _, by rw [Nat.mul_div_cancel _ hd]⟩

/-- A finite double is an integer if it has as many units. -/
theorem toInt?_eq_some_iff (h : y.meaning = .finite p m e) :
    y.toInt? = some i ↔ units p m e = i * unitsOfOne := by
  have hmin := minExponent_le h
  have hzero : minExponent ≤ 0 := by decide
  have hexponent : (e - minExponent).toNat = e.toNat + ((-minExponent).toNat - (-e).toNat) := by
    omega
  have hbound : (-e).toNat ≤ (-minExponent).toNat := by omega
  have hquotient (i : Int) := div_eq_iff (i := i) (a := m * 2 ^ e.toNat)
    (Nat.two_pow_pos (-e).toNat) (Nat.two_pow_pos ((-minExponent).toNat - (-e).toNat))
  rw [pow_mul_pow hbound, Nat.mul_assoc, ← Nat.pow_add, ← hexponent] at hquotient
  unfold toInt? units
  rw [h]
  cases p with
  | false =>
    simp only [Nat.shiftLeft_eq, Nat.one_mul, Bool.false_eq_true, if_false,
      Option.ite_none_right_eq_some, Option.some.injEq, hquotient]
  | true =>
    simp only [Nat.shiftLeft_eq, Nat.one_mul, if_true, Option.ite_none_right_eq_some,
      Option.some.injEq, neg_eq_iff_eq_neg, hquotient, Int.neg_mul]

/-- Widening an integer for a comparison is exact. -/
theorem orderedEq_ofInt (h : i.natAbs < 2 ^ 53) (y : Binary64) :
    (ofInt i).orderedEq y = true ↔ y.toInt? = some i := by
  obtain ⟨p, m, e, hmeaning, hunits⟩ := units_ofInt h
  unfold orderedEq
  rw [hmeaning]
  cases hy : y.meaning with
  | finite q n f =>
    rw [toInt?_eq_some_iff hy, ← hunits, beq_iff_eq, eq_comm]
  | nan | infinite q => simp [toInt?, hy]

end Binary64

end TypedLowering
