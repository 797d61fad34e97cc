import TypedLowering.Decimal.Binary64

/-!
The texts of numeric literals. Separators are dropped; a text with a radix mark is read in that
radix, any other as a decimal, with point and exponent if it has them. An integer literal may also
be written as a decimal whose double is an integer in range.
-/
namespace TypedLowering
set_option autoImplicit false

namespace NumericText

/-- The value of a digit in radices up to sixteen. -/
def digit? (radix : Nat) (c : Char) : Option Nat :=
  let value :=
    if '0' ≤ c ∧ c ≤ '9' then some (c.toNat - '0'.toNat)
    else if 'a' ≤ c ∧ c ≤ 'f' then some (c.toNat - 'a'.toNat + 10)
    else if 'A' ≤ c ∧ c ≤ 'F' then some (c.toNat - 'A'.toNat + 10)
    else none
  value.filter (· < radix)

/-- The number that digits denote behind a number already read; none if there is a character that
is no digit. -/
def digitsFrom (radix : Nat) : Nat → List Char → Option Nat
  | n, [] => some n
  | n, c :: rest => (digit? radix c).bind fun d => digitsFrom radix (n * radix + d) rest

/-- One or more digits. -/
def natural? (radix : Nat) (cs : List Char) : Option Nat :=
  if cs.isEmpty then none else digitsFrom radix 0 cs

/-- A sign, true for minus, and what follows it. -/
def splitSign : List Char → Bool × List Char
  | '-' :: rest => (true, rest)
  | '+' :: rest => (false, rest)
  | cs => (false, cs)

def signed (negative : Bool) (n : Nat) : Int := if negative then -(n : Int) else n

/-- An integer of 64 bits: an optional sign and digits. -/
def integer64? (radix : Nat) (cs : List Char) : Option Int :=
  let (negative, rest) := splitSign cs
  ((natural? radix rest).map (signed negative)).filter fun i =>
    -0x8000000000000000 ≤ i && i < 0x8000000000000000

/-- A natural number of 64 bits: digits, with a plus sign allowed in front. -/
def natural64? (radix : Nat) (cs : List Char) : Option Nat :=
  let rest := match cs with
    | '+' :: rest => rest
    | _ => cs
  (natural? radix rest).filter (· < 0x10000000000000000)

/-- The radix that the first two characters select, and what follows them. -/
def radixMark? : List Char → Option (Nat × List Char)
  | '0' :: 'x' :: rest | '0' :: 'X' :: rest => some (16, rest)
  | '0' :: 'o' :: rest | '0' :: 'O' :: rest => some (8, rest)
  | '0' :: 'b' :: rest | '0' :: 'B' :: rest => some (2, rest)
  | _ => none

/-- The text without separators. -/
def unseparated (text : String) : List Char := text.toList.filter (· ≠ '_')

def isDigit (c : Char) : Bool := '0' ≤ c && c ≤ '9'

/-- The exponent part of a decimal: nothing, or a mark, an optional sign and digits. -/
def exponent? : List Char → Option Int
  | [] => some 0
  | c :: rest =>
    if c = 'e' ∨ c = 'E' then
      let (negative, digits) := splitSign rest
      (natural? 10 digits).map (signed negative)
    else none

/-- A decimal without sign: digits with at most one point, at least one digit, and an exponent. -/
def decimal? (negative : Bool) (cs : List Char) : Option Binary64 :=
  let whole := cs.takeWhile isDigit
  let afterWhole := cs.dropWhile isDigit
  let (fraction, rest) := match afterWhole with
    | '.' :: r => (r.takeWhile isDigit, r.dropWhile isDigit)
    | r => ([], r)
  match natural? 10 (whole ++ fraction), exponent? rest with
  | some digits, some e => some (.ofDecimal negative digits (e - fraction.length))
  | _, _ => none

/-- The words for numbers that are not finite, in any case of letters. -/
def special? (negative : Bool) (cs : List Char) : Option Binary64 :=
  match cs.map Char.toLower with
  | ['i', 'n', 'f'] | ['i', 'n', 'f', 'i', 'n', 'i', 't', 'y'] => some (.infinity negative)
  | ['n', 'a', 'n'] => some (.nan negative)
  | _ => none

/-- The double nearest to a decimal. -/
def double? (cs : List Char) : Option Binary64 :=
  let (negative, rest) := splitSign cs
  (decimal? negative rest).or (special? negative rest)

/-- Keeps integers of 32 bits. -/
def int32? (i : Int) : Option Int :=
  if -0x80000000 ≤ i ∧ i < 0x80000000 then some i else none

/-- The value of an integer literal. -/
def int? (text : String) : Option Int :=
  let cs := unseparated text
  match radixMark? cs with
  | some (radix, rest) => (integer64? radix rest).bind int32?
  | none =>
    match integer64? 10 cs with
    | some i => int32? i
    | none => ((double? cs).bind Binary64.toInt?).bind int32?

/-- The value of a number literal. -/
def number? (text : String) : Option Binary64 :=
  let cs := unseparated text
  match radixMark? cs with
  | some (radix, rest) => (natural64? radix rest).map fun n => .ofInt n
  | none => double? cs

end NumericText

end TypedLowering
