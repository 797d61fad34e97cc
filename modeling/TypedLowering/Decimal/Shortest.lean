import TypedLowering.Decimal.Binary64

/-!
The shortest decimal that reads back as a given double. For 1, 2, … 17 digits the two neighbours of
the value on that decimal grid are tested in exact arithmetic; the first grid with a hit wins, and
of two hits the nearer one.
-/
namespace TypedLowering
set_option autoImplicit false

/-- The number `digits · 10 ^ exponent`. -/
structure Decimal where
  digits : Nat
  exponent : Int
  deriving DecidableEq, Repr

namespace Decimal

/-- Number of decimal digits, none for zero. -/
def digitCount (n : Nat) : Nat := if n = 0 then 0 else (Nat.toDigits 10 n).length

/-- The exponent of the leading decimal digit of a positive quotient. -/
def leadingExponent (num den : Nat) : Int :=
  if den ≤ num then (digitCount (num / den) : Int) - 1
  else -(digitCount ((den - 1) / num) : Int)

/-- The fractions with denominator `den` that round to one double: the value and the two ends of
the interval, which belong to it when `closed` holds. -/
structure Interval where
  low : Nat
  value : Nat
  high : Nat
  den : Nat
  closed : Bool

/-- The interval of the double `mantissa · 2 ^ exponent`. Below a power of two the doubles lie
twice as dense, so the lower end is nearer there. -/
def Interval.of (mantissa : Nat) (exponent : Int) : Interval :=
  let scale := (exponent - 2).toNat
  let below := if mantissa = Binary64.leadingBit ∧ Binary64.minExponent < exponent then 1 else 2
  { low := (4 * mantissa - below) <<< scale
    value := (4 * mantissa) <<< scale
    high := (4 * mantissa + 2) <<< scale
    den := 1 <<< (2 - exponent).toNat
    closed := mantissa % 2 = 0 }

/-- Whether `n · 10 ^ exponent` lies in the interval. -/
def Interval.holds (i : Interval) (n : Nat) (exponent : Int) : Bool :=
  let x := n * Nat.pow 10 exponent.toNat * i.den
  let unit := Nat.pow 10 (-exponent).toNat
  if i.closed then i.low * unit ≤ x && x ≤ i.high * unit
  else i.low * unit < x && x < i.high * unit

/-- The neighbours of the value on the grid of multiples of `10 ^ exponent`, if one of them lies in
the interval: the nearer of two, the upper one in a tie. -/
def Interval.onGrid (i : Interval) (exponent : Int) : Option Nat :=
  let num := i.value * Nat.pow 10 (-exponent).toNat
  let den := i.den * Nat.pow 10 exponent.toNat
  let lower := num / den
  let upper := lower + 1
  let twice := 2 * (num % den)
  let first := if twice < den then lower else upper
  let second := if twice < den then upper else lower
  if i.holds first exponent then some first
  else if i.holds second exponent then some second
  else none

/-- Moves trailing zeros of the digits into the exponent; `fuel` bounds their number. -/
def trim : Nat → Nat → Int → Decimal
  | 0, n, e => ⟨n, e⟩
  | fuel + 1, n, e => if n ≠ 0 ∧ n % 10 = 0 then trim fuel (n / 10) (e + 1) else ⟨n, e⟩

/-- The first grid with a hit, starting with `count` digits. -/
def searchGrids (i : Interval) (lead : Int) : Nat → Nat → Decimal
  | 0, _ => ⟨0, 0⟩
  | fuel + 1, count =>
    let e := lead - count + 1
    match i.onGrid e with
    | some n => trim 20 n e
    | none => searchGrids i lead fuel (count + 1)

/-- The shortest decimal in the interval of a positive double. -/
def shortest (mantissa : Nat) (exponent : Int) : Decimal :=
  let i := Interval.of mantissa exponent
  searchGrids i (leadingExponent i.value i.den) 17 1

end Decimal

/-- How a double is written. -/
structure FloatFormat where
  /-- Leading exponents from here are written positionally. -/
  leastPositional : Int
  /-- Leading exponents up to here are written positionally. -/
  greatestPositional : Int
  /-- What follows a positional number without fraction. -/
  integralEnd : String
  exponentMark : String
  nan : String
  infinity : String

namespace FloatFormat

/-- The digits of a decimal, with a point after the first `before`. -/
def pointed (digits : List Char) (before : Nat) : String :=
  match digits.drop before with
  | [] => String.ofList digits
  | fraction => String.ofList (digits.take before) ++ "." ++ String.ofList fraction

/-- Positional notation. -/
def positional (f : FloatFormat) (digits : List Char) (exponent : Int) : String :=
  let count : Int := digits.length
  if 0 ≤ exponent then
    String.ofList (digits ++ List.replicate exponent.toNat '0') ++ f.integralEnd
  else if -count < exponent then
    pointed digits (count + exponent).toNat
  else
    "0." ++ String.ofList (List.replicate (-exponent - count).toNat '0' ++ digits)

/-- The text of a positive decimal. -/
def decimal (f : FloatFormat) (d : Decimal) : String :=
  let digits := Nat.toDigits 10 d.digits
  let lead := d.exponent + digits.length - 1
  if f.leastPositional ≤ lead ∧ lead ≤ f.greatestPositional then f.positional digits d.exponent
  else pointed digits 1 ++ f.exponentMark ++ toString lead

/-- The text of a double; the sign of zero is written, that of a number that is none is not. -/
def write (f : FloatFormat) (x : Binary64) : String :=
  let signed (neg : Bool) (s : String) := if neg then "-" ++ s else s
  match x.meaning with
  | .nan => f.nan
  | .infinite neg => signed neg f.infinity
  | .finite neg 0 _ => signed neg ("0" ++ f.integralEnd)
  | .finite neg m e => signed neg (f.decimal (Decimal.shortest m e))

/-- Numbers from 10⁻⁴ below 10¹⁶ are positional, and `.0` marks one without fraction. -/
def standard : FloatFormat :=
  ⟨-4, 15, ".0", "e", "NaN", "inf"⟩

end FloatFormat

/-- The text of a double in literals and printed constants. -/
def Binary64.text (x : Binary64) : String := FloatFormat.standard.write x

end TypedLowering
