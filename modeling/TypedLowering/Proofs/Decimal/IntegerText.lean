import Mathlib.Data.List.Basic
import TypedLowering.Proofs.Decimal.Magnitude

/-!
The integers that literals write. A text denotes an integer if it is a mark and digits of the radix
that the mark selects, or a sign, decimal digits and an exponent; separators may stand among the
digits. Such a text is read as the integer that it denotes, however long it is, if this has 32 bits,
and as nothing otherwise: what is too long for the reading of 64 bits goes through a double, which
never becomes small again.

Main definitions:

- `NumericText.Writes`: characters that write digits;
- `NumericText.Denotes`: the integer that a text denotes.

Main results: `NumericText.int?_of_denotes`, and for decimal forms `NumericText.denotes_toString`.
-/
namespace TypedLowering
set_option autoImplicit false

namespace NumericText

/-! ## Texts of integers -/

/-- Characters that write digits of a radix, the most significant first, in either case of letters and
with any separators among them. -/
inductive Writes (radix : Nat) : List Char → List Nat → Prop where
  | nil : Writes radix [] []
  | separator {cs : List Char} {ds : List Nat} (h : Writes radix cs ds) : Writes radix ('_' :: cs) ds
  | digit {c : Char} {d : Nat} {cs : List Char} {ds : List Nat} (hd : d < radix)
      (hc : c = Nat.digitChar d ∨ c = (Nat.digitChar d).toUpper) (h : Writes radix cs ds) :
      Writes radix (c :: cs) (d :: ds)

/-- The number with given digits, the most significant first. -/
def numberOf (radix : Nat) (ds : List Nat) : Nat := Nat.ofDigits radix ds.reverse

/-- The characters that mark a radix behind a zero. -/
def radixMarks : List (Char × Nat) := [('x', 16), ('X', 16), ('o', 8), ('O', 8), ('b', 2), ('B', 2)]

/-- An optional sign, true for minus. -/
inductive Sign : List Char → Bool → Prop where
  | absent : Sign [] false
  | plus : Sign ['+'] false
  | minus : Sign ['-'] true

/-- An optional exponent that is not negative. -/
inductive Exponent : List Char → Nat → Prop where
  | absent : Exponent [] 0
  | digits {mark : Char} {cs : List Char} {ds : List Nat} (hmark : mark = 'e' ∨ mark = 'E')
      (h : Writes 10 cs ds) (hds : ds ≠ []) : Exponent (mark :: cs) (numberOf 10 ds)

/-- The integer that a text denotes. -/
inductive Denotes : List Char → Int → Prop where
  /-- Digits behind the mark of a radix. -/
  | marked {mark : Char} {radix : Nat} {cs : List Char} {ds : List Nat}
      (hmark : (mark, radix) ∈ radixMarks) (h : Writes radix cs ds) (hds : ds ≠ []) :
      Denotes ('0' :: mark :: cs) (numberOf radix ds)
  /-- Decimal digits behind a sign, and an exponent. -/
  | decimal {sign cs exponent : List Char} {negative : Bool} {ds : List Nat} {k : Nat}
      (hsign : Sign sign negative) (h : Writes 10 cs ds) (hds : ds ≠ [])
      (hexponent : Exponent exponent k) :
      Denotes (sign ++ cs ++ exponent) (signed negative (numberOf 10 ds * 10 ^ k))

/-! ## Digits -/

variable {radix d n : Nat} {c : Char} {cs : List Char} {ds : List Nat} {negative : Bool}

theorem digit?_sixteen : ∀ d < 16,
    digit? 16 (Nat.digitChar d) = some d ∧ digit? 16 (Nat.digitChar d).toUpper = some d := by
  decide

theorem digit?_of_lt (h : digit? 16 c = some d) (hd : d < radix) : digit? radix c = some d := by
  unfold digit? at h ⊢
  dsimp only at h ⊢
  obtain ⟨hvalue, -⟩ := Option.filter_eq_some_iff.mp h
  exact Option.filter_eq_some_iff.mpr ⟨hvalue, decide_eq_true hd⟩

theorem digit?_of_written (hradix : radix ≤ 16) (hd : d < radix)
    (hc : c = Nat.digitChar d ∨ c = (Nat.digitChar d).toUpper) : digit? radix c = some d := by
  obtain ⟨hlower, hupper⟩ := digit?_sixteen d (by omega)
  rcases hc with rfl | rfl
  · exact digit?_of_lt hlower hd
  · exact digit?_of_lt hupper hd

/-- No digit is written as a separator. -/
theorem ne_separator (h : digit? radix c = some d) : c ≠ '_' := by
  rintro rfl
  cases h

/-- Characters that are digits of a radix. -/
def AllDigits (radix : Nat) (cs : List Char) : Prop := ∀ c ∈ cs, ∃ d, digit? radix c = some d

theorem digitsFrom_append (xs ys : List Char) : digitsFrom radix n (xs ++ ys) =
    (digitsFrom radix n xs).bind fun m => digitsFrom radix m ys := by
  induction xs generalizing n with
  | nil => rfl
  | cons c xs ih =>
    rw [List.cons_append, digitsFrom, digitsFrom]
    cases digit? radix c with
    | none => rfl
    | some d => exact ih

theorem numberOf_cons (radix d : Nat) (ds : List Nat) :
    numberOf radix (d :: ds) = d * radix ^ ds.length + numberOf radix ds := by
  rw [numberOf, List.reverse_cons, Nat.ofDigits_append, Nat.ofDigits_singleton, List.length_reverse,
    numberOf]
  ring

/-- The characters of a text that are no separators. -/
def clean (cs : List Char) : List Char := cs.filter (· ≠ '_')

theorem clean_append (xs ys : List Char) : clean (xs ++ ys) = clean xs ++ clean ys :=
  List.filter_append ..

theorem clean_cons (h : c ≠ '_') (cs : List Char) : clean (c :: cs) = c :: clean cs :=
  List.filter_cons_of_pos (by simpa using h)

namespace Writes

theorem allDigits (hradix : radix ≤ 16) (h : Writes radix cs ds) : AllDigits radix (clean cs) := by
  induction h with
  | nil => exact fun _ hc => by cases hc
  | separator h ih => exact ih
  | @digit c d cs ds hd hc h ih =>
    have hdigit := digit?_of_written hradix hd hc
    rw [clean_cons (ne_separator hdigit)]
    intro c' hc'
    rcases List.mem_cons.mp hc' with rfl | hmem
    · exact ⟨d, hdigit⟩
    · exact ih c' hmem

/-- What is written is read. -/
theorem digitsFrom (hradix : radix ≤ 16) (h : Writes radix cs ds) (n : Nat) :
    digitsFrom radix n (clean cs) = some (n * radix ^ ds.length + numberOf radix ds) := by
  induction h generalizing n with
  | nil => simp [NumericText.digitsFrom, clean, numberOf]
  | separator h ih => exact ih n
  | @digit c d cs ds hd hc h ih =>
    have hdigit := digit?_of_written hradix hd hc
    rw [clean_cons (ne_separator hdigit), NumericText.digitsFrom, hdigit, Option.bind_some, ih,
      numberOf_cons, List.length_cons, Nat.pow_succ]
    congr 1
    ring

theorem clean_ne_nil (hradix : radix ≤ 16) (h : Writes radix cs ds) (hds : ds ≠ []) :
    clean cs ≠ [] := by
  induction h with
  | nil => exact absurd rfl hds
  | separator h ih => exact ih hds
  | digit hd hc h ih =>
    rw [clean_cons (ne_separator (digit?_of_written hradix hd hc))]
    simp

theorem natural? (hradix : radix ≤ 16) (h : Writes radix cs ds) (hds : ds ≠ []) :
    natural? radix (clean cs) = some (numberOf radix ds) := by
  rw [NumericText.natural?, if_neg (by simpa using h.clean_ne_nil hradix hds), h.digitsFrom hradix,
    Nat.zero_mul, Nat.zero_add]

end Writes

/-! ## Signs and marks -/

theorem splitSign_of_plain (h : ∀ c ∈ cs.head?, c ≠ '-' ∧ c ≠ '+') : splitSign cs = (false, cs) := by
  unfold splitSign
  split
  · exact absurd rfl (h '-' rfl).1
  · exact absurd rfl (h '+' rfl).2
  · rfl

theorem Sign.splitSign {sign : List Char} (hsign : Sign sign negative)
    (h : ∀ c ∈ cs.head?, c ≠ '-' ∧ c ≠ '+') : splitSign (sign ++ cs) = (negative, cs) := by
  cases hsign with
  | absent => exact splitSign_of_plain h
  | plus => rfl
  | minus => rfl

theorem not_sign_of_digit (h : digit? radix c = some d) : c ≠ '-' ∧ c ≠ '+' := by
  constructor
  · rintro rfl
    cases h
  · rintro rfl
    cases h

theorem AllDigits.head (h : AllDigits radix cs) : ∀ c ∈ cs.head?, c ≠ '-' ∧ c ≠ '+' := by
  intro c hc
  obtain ⟨d, hd⟩ := h c (List.mem_of_mem_head? hc)
  exact not_sign_of_digit hd

theorem radixMark?_of_mem {mark : Char} (h : (mark, radix) ∈ radixMarks) (cs : List Char) :
    radixMark? ('0' :: mark :: cs) = some (radix, cs) := by
  simp only [radixMarks, List.mem_cons, Prod.mk.injEq, List.not_mem_nil, or_false] at h
  rcases h with ⟨rfl, rfl⟩ | ⟨rfl, rfl⟩ | ⟨rfl, rfl⟩ | ⟨rfl, rfl⟩ | ⟨rfl, rfl⟩ | ⟨rfl, rfl⟩ <;> rfl

theorem radixMark?_eq_none (h : ∀ c ∈ cs, c ∉ radixMarks.map (·.1)) : radixMark? cs = none := by
  unfold radixMark?
  split
  case h_7 => rfl
  all_goals exact absurd (by decide) (h _ (List.mem_cons_of_mem _ List.mem_cons_self))

/-! ## Decimals -/

theorem isDigit_of_digit? (h : digit? 10 c = some d) : isDigit c = true := by
  obtain ⟨hvalue, hlt⟩ := Option.filter_eq_some_iff.mp h
  rw [decide_eq_true_eq] at hlt
  unfold isDigit
  split at hvalue
  · next hc => simpa using hc
  · split at hvalue
    · cases hvalue
      omega
    · split at hvalue
      · cases hvalue
        omega
      · cases hvalue

/-- No decimal digit marks a radix. -/
theorem not_mark_of_digit (h : digit? 10 c = some d) : c ∉ radixMarks.map (·.1) := by
  intro hc
  simp only [radixMarks, List.map_cons, List.map_nil, List.mem_cons, List.not_mem_nil, or_false] at hc
  rcases hc with rfl | rfl | rfl | rfl | rfl | rfl <;> cases h

namespace Exponent

variable {exponent : List Char} {k : Nat}

/-- What an exponent looks like without separators: nothing, or a mark and digits. -/
theorem clean_cases (h : Exponent exponent k) : (clean exponent = [] ∧ k = 0) ∨
    ∃ mark digits, (mark = 'e' ∨ mark = 'E') ∧ clean exponent = mark :: digits ∧
      AllDigits 10 digits ∧ natural? 10 digits = some k := by
  cases h with
  | absent => exact .inl ⟨rfl, rfl⟩
  | @digits mark cs ds hmark h hds =>
    have hne : mark ≠ '_' := by rcases hmark with rfl | rfl <;> decide
    exact .inr ⟨mark, clean cs, hmark, clean_cons hne cs, h.allDigits (by decide),
      h.natural? (by decide) hds⟩

theorem exponent? (h : Exponent exponent k) : exponent? (clean exponent) = some (k : Int) := by
  rcases h.clean_cases with ⟨hempty, rfl⟩ | ⟨mark, digits, hmark, hclean, hdigits, hk⟩
  · rw [hempty]
    rfl
  · rw [hclean, NumericText.exponent?, if_pos hmark, splitSign_of_plain hdigits.head]
    dsimp only
    rw [hk]
    rfl

theorem head (h : Exponent exponent k) : ∀ c ∈ (clean exponent).head?, isDigit c = false := by
  intro c hc
  rcases h.clean_cases with ⟨hempty, -⟩ | ⟨mark, digits, hmark, hclean, -⟩
  · rw [hempty] at hc
    cases hc
  · rw [hclean] at hc
    cases hc
    rcases hmark with rfl | rfl <;> decide

theorem not_mark (h : Exponent exponent k) : ∀ c ∈ clean exponent, c ∉ radixMarks.map (·.1) := by
  intro c hc
  rcases h.clean_cases with ⟨hempty, -⟩ | ⟨mark, digits, hmark, hclean, hdigits, -⟩
  · rw [hempty] at hc
    cases hc
  · rw [hclean] at hc
    rcases List.mem_cons.mp hc with rfl | hmem
    · rcases hmark with rfl | rfl <;> decide
    · obtain ⟨d, hd⟩ := hdigits c hmem
      exact not_mark_of_digit hd

/-- With an exponent, digits are no integer in themselves. -/
theorem natural?_append (h : Exponent exponent k) (xs : List Char) :
    (clean exponent = [] ∧ k = 0) ∨ natural? 10 (xs ++ clean exponent) = none := by
  rcases h.clean_cases with hempty | ⟨mark, digits, hmark, hclean, -⟩
  · exact .inl hempty
  · right
    have hnone : digit? 10 mark = none := by rcases hmark with rfl | rfl <;> rfl
    rw [hclean, natural?, if_neg (by simp), digitsFrom_append]
    cases digitsFrom 10 0 xs with
    | none => rfl
    | some m => rw [Option.bind_some, digitsFrom, hnone]; rfl

end Exponent

/-- The digits before the point are all that there are. -/
theorem takeWhile_digits {xs ys : List Char} (hxs : AllDigits 10 xs)
    (hys : ∀ c ∈ ys.head?, isDigit c = false) :
    (xs ++ ys).takeWhile isDigit = xs ∧ (xs ++ ys).dropWhile isDigit = ys := by
  have hall : ∀ c ∈ xs, isDigit c = true := by
    intro c hc
    obtain ⟨d, hd⟩ := hxs c hc
    exact isDigit_of_digit? hd
  rw [List.takeWhile_append_of_pos hall, List.dropWhile_append_of_pos hall]
  cases ys with
  | nil => exact ⟨List.append_nil xs, rfl⟩
  | cons c ys =>
    have hc := hys c rfl
    rw [List.takeWhile_cons_of_neg (by simp [hc]), List.dropWhile_cons_of_neg (by simp [hc])]
    exact ⟨List.append_nil xs, rfl⟩

/-- The double that decimal digits and an exponent are read as. -/
theorem decimal?_append {exponent xs : List Char} {k : Nat} (negative : Bool)
    (hxs : AllDigits 10 xs) (hn : natural? 10 xs = some n) (h : Exponent exponent k) :
    decimal? negative (xs ++ clean exponent) = some (.ofDecimal negative n k) := by
  obtain ⟨htake, hdrop⟩ := takeWhile_digits hxs h.head
  have hexponent := h.exponent?
  unfold decimal?
  dsimp only
  rw [htake, hdrop]
  -- neither nothing nor a mark is a point
  rcases h.clean_cases with ⟨hclean, -⟩ | ⟨mark, digits, rfl | rfl, hclean, -⟩
  all_goals
    rw [hclean] at hexponent ⊢
    simp [hn, hexponent]

/-! ## Integers -/

/-- Keeping integers of 32 bits does not see what is beyond 53 bits. -/
theorem int32?_eq_none {i : Int} (h : 2 ^ 53 ≤ i.natAbs) : int32? i = none := by
  rw [int32?, if_neg (by omega)]

/-- Reading an integer through a double is right for integers of 32 bits. -/
theorem bind_ofDecimal (negative : Bool) (n k : Nat) :
    ((Binary64.ofDecimal negative n k).toInt?).bind int32? = int32? (signed negative (n * 10 ^ k)) := by
  obtain ⟨hsmall, hlarge⟩ := Binary64.toInt?_ofDecimal negative n k
  by_cases h : n * 10 ^ k < 2 ^ 53
  · rw [hsmall h, Option.bind_some]
  · rw [int32?_eq_none (by rw [natAbs_signed]; omega)]
    cases hi : (Binary64.ofDecimal negative n k).toInt? with
    | none => rfl
    | some i => exact int32?_eq_none (hlarge (by omega) i hi)

/-- Digits behind the mark of a radix. -/
theorem int?_of_marked {text : String} {mark : Char} (hmark : (mark, radix) ∈ radixMarks)
    (h : Writes radix cs ds) (hds : ds ≠ []) (htext : text.toList = '0' :: mark :: cs) :
    int? text = int32? (numberOf radix ds) := by
  have hne : mark ≠ '_' ∧ radix ≤ 16 := by
    simp only [radixMarks, List.mem_cons, Prod.mk.injEq, List.not_mem_nil, or_false] at hmark
    rcases hmark with ⟨rfl, rfl⟩ | ⟨rfl, rfl⟩ | ⟨rfl, rfl⟩ | ⟨rfl, rfl⟩ | ⟨rfl, rfl⟩ | ⟨rfl, rfl⟩ <;>
      decide
  have hclean : unseparated text = '0' :: mark :: clean cs := by
    show clean text.toList = _
    rw [htext, clean_cons (by decide), clean_cons hne.1]
  unfold int?
  dsimp only
  rw [hclean, radixMark?_of_mem hmark]
  dsimp only
  rw [integer64?, splitSign_of_plain (h.allDigits hne.2).head]
  dsimp only
  have hvalue : signed false (numberOf radix ds) = (numberOf radix ds : Int) := rfl
  rw [h.natural? hne.2 hds, Option.map_some, hvalue, Option.filter_some]
  split
  · rw [Option.bind_some]
  · next hrange =>
    simp only [Bool.and_eq_true, decide_eq_true_eq] at hrange
    rw [int32?, if_neg (by omega), Option.bind_none]

/-- Decimal digits behind a sign, and an exponent. -/
theorem int?_of_decimal {text : String} {sign exponent : List Char} {k : Nat}
    (hsign : Sign sign negative) (h : Writes 10 cs ds) (hds : ds ≠ []) (hexponent : Exponent exponent k)
    (htext : text.toList = sign ++ cs ++ exponent) :
    int? text = int32? (signed negative (numberOf 10 ds * 10 ^ k)) := by
  have hdigits := h.allDigits (by decide)
  have hnatural := h.natural? (by decide) hds
  have hclean : unseparated text = sign ++ (clean cs ++ clean exponent) := by
    have hplain : clean sign = sign := by cases hsign <;> rfl
    show clean text.toList = _
    rw [htext, clean_append, clean_append, hplain, List.append_assoc]
  have hhead : ∀ c ∈ (clean cs ++ clean exponent).head?, c ≠ '-' ∧ c ≠ '+' := by
    rw [List.head?_append_of_ne_nil _ (h.clean_ne_nil (by decide) hds)]
    exact hdigits.head
  have hmark : radixMark? (sign ++ (clean cs ++ clean exponent)) = none := by
    refine radixMark?_eq_none fun c hc => ?_
    rcases List.mem_append.mp hc with hc | hc
    · cases hsign <;> simp at hc <;> subst hc <;> decide
    · rcases List.mem_append.mp hc with hc | hc
      · obtain ⟨d, hd⟩ := hdigits c hc
        exact not_mark_of_digit hd
      · exact hexponent.not_mark c hc
  have hdouble : double? (sign ++ (clean cs ++ clean exponent)) =
      some (.ofDecimal negative (numberOf 10 ds) k) := by
    rw [double?, hsign.splitSign hhead]
    dsimp only
    rw [decimal?_append negative hdigits hnatural hexponent]
    rfl
  unfold int?
  dsimp only
  rw [hclean, hmark]
  dsimp only
  split
  · next i hi =>
    -- without an exponent the digits are an integer of 64 bits
    rw [integer64?, hsign.splitSign hhead] at hi
    dsimp only at hi
    rcases hexponent.natural?_append (clean cs) with ⟨hempty, rfl⟩ | hnone
    · rw [hempty, List.append_nil, hnatural, Option.map_some, Option.filter_some] at hi
      split at hi
      · cases hi
        rw [Nat.pow_zero, Nat.mul_one]
      · cases hi
    · rw [hnone] at hi
      cases hi
  · rw [hdouble, Option.bind_some, bind_ofDecimal]

/-- A text that denotes an integer is read as it, if it has 32 bits. -/
theorem int?_of_denotes {text : String} {v : Int} (h : Denotes text.toList v) :
    int? text = int32? v := by
  generalize htext : text.toList = cs at h
  cases h with
  | marked hmark h hds => exact int?_of_marked hmark h hds htext
  | decimal hsign h hds hexponent => exact int?_of_decimal hsign h hds hexponent htext

/-! ## Decimal forms -/

theorem Writes.append {xs ys : List Char} {es : List Nat} (h : Writes radix xs ds)
    (h' : Writes radix ys es) : Writes radix (xs ++ ys) (ds ++ es) := by
  induction h with
  | nil => exact h'
  | separator h ih => exact .separator ih
  | digit hd hc h ih => exact .digit hd hc ih

/-- The digits of a natural number write it. -/
theorem exists_writes (n : Nat) :
    ∃ ds, Writes 10 (Nat.toDigits 10 n) ds ∧ ds ≠ [] ∧ numberOf 10 ds = n := by
  induction n using Nat.strong_induction_on with
  | _ n ih =>
    have last (d : Nat) (hd : d < 10) : Writes 10 [Nat.digitChar d] [d] := .digit hd (.inl rfl) .nil
    rw [Nat.toDigits_eq_if (by decide)]
    split
    · next hlt => exact ⟨[n], last n hlt, by simp, Nat.ofDigits_singleton⟩
    · next hle =>
      obtain ⟨ds, hds, hne, hnumber⟩ := ih (n / 10) (by omega)
      refine ⟨ds ++ [n % 10], hds.append (last _ (by omega)), by simp, ?_⟩
      rw [numberOf, List.reverse_append, List.reverse_singleton, List.singleton_append,
        Nat.ofDigits_cons, ← numberOf, hnumber]
      omega

/-- The decimal form of an integer denotes it. -/
theorem denotes_toString (i : Int) : Denotes (toString i).toList i := by
  have natural (n : Nat) {sign : List Char} {negative : Bool} (hsign : Sign sign negative) :
      Denotes (sign ++ Nat.toDigits 10 n) (signed negative n) := by
    obtain ⟨ds, hds, hne, hnumber⟩ := exists_writes n
    have h := Denotes.decimal hsign hds hne .absent
    rwa [hnumber, Nat.pow_zero, Nat.mul_one, List.append_nil] at h
  cases i with
  | ofNat n =>
    have htext : (toString (Int.ofNat n)).toList = [] ++ Nat.toDigits 10 n := by
      show (Nat.repr n).toList = _
      rw [Nat.toList_repr, List.nil_append]
    rw [htext]
    exact natural n .absent
  | negSucc n =>
    have htext : (toString (Int.negSucc n)).toList = ['-'] ++ Nat.toDigits 10 (n + 1) := by
      show ("-" ++ Nat.repr (n + 1)).toList = _
      rw [String.toList_append, Nat.toList_repr]
      rfl
    rw [htext]
    exact natural (n + 1) .minus

end NumericText

end TypedLowering
