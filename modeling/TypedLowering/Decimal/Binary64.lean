/-!
Doubles as exact numbers. A finite double is `mantissa · 2 ^ exponent`; in the other direction
`roundRatio` gives the double nearest to a quotient, a tie going to the even mantissa. All
arithmetic is on natural numbers, so nothing is lost before the final rounding.
-/
namespace TypedLowering
set_option autoImplicit false

/-- A double, by its 64 bits: sign, 11 bits of exponent, 52 bits of fraction. -/
structure Binary64 where
  bits : UInt64
  deriving DecidableEq, Repr

namespace Binary64

/-- What the bits of a double denote. -/
inductive Meaning where
  | nan
  | infinite (negative : Bool)
  | finite (negative : Bool) (mantissa : Nat) (exponent : Int)
  deriving DecidableEq, Repr

/-- The least exponent of a finite double. -/
def minExponent : Int := -1074

/-- The bit that is left out of the fraction of a normal double, 2⁵². -/
def leadingBit : Nat := 0x10000000000000

/-- The sign bit, 2⁶³. -/
def signBit : Nat := 0x8000000000000000

def negative (x : Binary64) : Bool := signBit ≤ x.bits.toNat

/-- The number that the bits denote. -/
def meaning (x : Binary64) : Meaning :=
  let magnitude := x.bits.toNat % signBit
  let biased := magnitude / leadingBit
  let fraction := magnitude % leadingBit
  if biased = 2047 then
    if fraction = 0 then .infinite x.negative else .nan
  else if biased = 0 then .finite x.negative fraction minExponent
  else .finite x.negative (fraction + leadingBit) (minExponent + ((biased - 1 : Nat) : Int))

/-- The bits of positive infinity, which follow those of the largest finite double. -/
def infinityBits : Nat := 2047 * leadingBit

/-- The quotient rounded to a natural number, a tie going to the even one. -/
def roundEven (num den : Nat) : Nat :=
  let q := num / den
  let twice := 2 * (num % den)
  if twice < den then q
  else if den < twice then q + 1
  else q + q % 2

/-- `num / den · 2 ^ (-exponent)` as a fraction. -/
def scaled (num den : Nat) (exponent : Int) : Nat × Nat :=
  (num <<< (-exponent).toNat, den <<< exponent.toNat)

/-- The exponent that leaves a mantissa of 53 bits, or fewer at the least exponent. -/
def exponentFor (num den : Nat) : Int :=
  let guess : Int := (num.log2 : Int) - (den.log2 : Int) - 52
  let (n, d) := scaled num den guess
  let exact := if n < leadingBit * d then guess - 1 else guess
  max exact minExponent

/-- The magnitude bits of the double nearest to `num / den`: beyond the largest finite double they
are those of infinity. A mantissa that rounds up to 2⁵³ carries into the exponent by itself. -/
def roundRatio (num den : Nat) : Nat :=
  if num = 0 then 0
  else
    let e := exponentFor num den
    let (n, d) := scaled num den e
    min ((e - minExponent).toNat * leadingBit + roundEven n d) infinityBits

/-- The double with a sign and magnitude bits. -/
def ofMagnitude (negative : Bool) (magnitude : Nat) : Binary64 :=
  ⟨UInt64.ofNat (magnitude + if negative then signBit else 0)⟩

def zero : Binary64 := ⟨0⟩

def infinity (negative : Bool) : Binary64 := ofMagnitude negative infinityBits

/-- The quiet number that is not a number, without payload. -/
def nan (negative : Bool) : Binary64 := ofMagnitude negative (infinityBits + leadingBit / 2)

/-- The double nearest to an integer. -/
def ofInt (i : Int) : Binary64 := ofMagnitude (i < 0) (roundRatio i.natAbs 1)

/-- The double nearest to `digits · 10 ^ exponent`. An exponent far outside the range of doubles is
settled without computing the power. -/
def ofDecimal (negative : Bool) (digits : Nat) (exponent : Int) : Binary64 :=
  if digits = 0 then ofMagnitude negative 0
  else
    let top := exponent + (Nat.toDigits 10 digits).length
    if 400 < top then infinity negative
    else if top < -400 then ofMagnitude negative 0
    else
      ofMagnitude negative (roundRatio (digits * Nat.pow 10 exponent.toNat) (Nat.pow 10 (-exponent).toNat))

/-- The integer that a finite double equals, if it is one. -/
def toInt? (x : Binary64) : Option Int :=
  match x.meaning with
  | .finite neg m e =>
    let magnitude := m <<< e.toNat
    let unit := 1 <<< (-e).toNat
    if magnitude % unit = 0 then
      let v : Int := (magnitude / unit : Nat)
      some (if neg then -v else v)
    else none
  | _ => none

end Binary64

end TypedLowering
