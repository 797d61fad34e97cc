import TypedLowering.Proofs.Decimal.IntegerText
import TypedLowering.Proofs.Flow.Completion

/-!
The code of integer literals. Wherever it stands, a literal whose text denotes an integer becomes the
constant of 32 bits if the integer is one, and is refused as a literal otherwise.

Main result: `Gen.integer_literals_exact`.
-/
namespace TypedLowering
set_option autoImplicit false
open Ssa

namespace Gen

variable {env : Env} {s : GenState} {n : Node}

/-- The code of an integer literal: its constant if it is an integer of 32 bits. -/
theorem generate_integerLiteral {text : String} (hs : s.Open)
    (hregistry : env.registry.get? .numericLiteral = some .numericLiteral)
    (hform : n.form = .numericLiteral text) (htype : n.type.substitute s.frame.subst = .int)
    (depth : Nat) :
    (∀ i, NumericText.int? text = some i → Gen.generate (depth + 1) n env s =
      .ok (.rvalue (s.query .absent Function.nextValue) .int)
        (s.mapFunction fun f => f.append s.frame.block (.const (.i32 i)))) ∧
    (NumericText.int? text = none → Gen.generate (depth + 1) n env s =
      .error (.reported ⟨.invalidLiteral text "int", n.span⟩) s) := by
  have hkind : n.kind = .numericLiteral := by rw [Node.kind, hform]; rfl
  have hdispatch : Gen.generate (depth + 1) n env s = numericLiteral n env s := by
    rw [Gen.generate, run_read, hkind, hregistry]
    rfl
  have hrun : numericLiteral n env s = (do
      let c ← ofExcept (numericConstant text (n.type.substitute s.frame.subst) n.span)
      return .rvalue (← emitConst c) (n.type.substitute s.frame.subst) : Gen Value) env s := by
    unfold numericLiteral
    rw [hform]
    rfl
  rw [hdispatch, hrun, htype, numericConstant]
  refine ⟨fun i hi => ?_, fun hnone => ?_⟩
  · rw [hi]
    show (do return .rvalue (← emitConst (.i32 i)) .int : Gen Value) env s = _
    rw [run_bind, emitConst, emit_run env hs]
    rfl
  · rw [hnone]
    rfl

/-- **Integer literals are exact.** A text that denotes an integer, of whatever length, is read as it
if it has 32 bits and is refused otherwise; a literal with this text becomes the constant or an
invalid literal accordingly, and the decimal form of an integer denotes it. -/
theorem integer_literals_exact :
    (∀ {text : String} {v : Int}, NumericText.Denotes text.toList v →
      NumericText.int? text = (if -2 ^ 31 ≤ v ∧ v ≤ 2 ^ 31 - 1 then some v else none) ∧
      ∀ (env : Env) (s : GenState) (n : Node) (depth : Nat), s.Open →
        env.registry.get? .numericLiteral = some .numericLiteral →
        n.form = .numericLiteral text → n.type.substitute s.frame.subst = .int →
        Gen.generate (depth + 1) n env s =
          if -2 ^ 31 ≤ v ∧ v ≤ 2 ^ 31 - 1 then
            .ok (.rvalue (s.query .absent Function.nextValue) .int)
              (s.mapFunction fun f => f.append s.frame.block (.const (.i32 v)))
          else .error (.reported ⟨.invalidLiteral text "int", n.span⟩) s) ∧
    ∀ i : Int, NumericText.Denotes (toString i).toList i := by
  have fits (v : Int) : NumericText.int32? v =
      if -2 ^ 31 ≤ v ∧ v ≤ 2 ^ 31 - 1 then some v else none := by
    unfold NumericText.int32?
    exact if_congr (by omega) rfl rfl
  refine ⟨fun {text v} h => ?_, NumericText.denotes_toString⟩
  have hread := (NumericText.int?_of_denotes h).trans (fits v)
  refine ⟨hread, fun env s n depth hs hregistry hform htype => ?_⟩
  obtain ⟨hyes, hno⟩ := generate_integerLiteral hs hregistry hform htype depth
  by_cases hfits : -2 ^ 31 ≤ v ∧ v ≤ 2 ^ 31 - 1
  · rw [if_pos hfits] at hread ⊢
    exact hyes v hread
  · rw [if_neg hfits] at hread ⊢
    exact hno hread

/-- A state in a function that returns an integer. -/
def inIntFunction : GenState :=
  let f := (Function.shell "f" [] .i32 .internal).addBlock "entry"
  { unit := { module := ({ name := "m" } : Module).addFunction f }
    frame := { Frame.outside with function := ⟨0⟩, block := ⟨0⟩ } }

/-- Forms of integers: a hexadecimal digit behind a separator is read, the decimal form of an integer
of 33 bits is no literal, and neither is a short text with a large exponent. -/
theorem integer_literals_exact_forms :
    NumericText.int? "0X_f" = some 15 ∧ NumericText.int? (toString (-2147483649 : Int)) = none ∧
      NumericText.int? "1_0e9" = none ∧
      succeeds (Gen.generate 1 (.mk ⟨0⟩ .dummy .int (.numericLiteral "0X_f"))) ⟨{}, {}, .standard⟩
        inIntFunction = true := by
  have hhex : NumericText.Denotes "0X_f".toList (NumericText.numberOf 16 [15]) :=
    .marked (by decide) (.separator (.digit (by decide) (.inl rfl) .nil)) (by decide)
  have hlarge : NumericText.Denotes "1_0e9".toList
      (NumericText.signed false (NumericText.numberOf 10 [1, 0] * 10 ^ NumericText.numberOf 10 [9])) := by
    rw [show "1_0e9".toList = [] ++ ['1', '_', '0'] ++ ['e', '9'] from rfl]
    exact .decimal .absent
      (.digit (by decide) (.inl rfl) (.separator (.digit (by decide) (.inl rfl) .nil))) (by decide)
      (.digits (.inl rfl) (.digit (by decide) (.inl rfl) .nil) (by decide))
  obtain ⟨hread, hdecimal⟩ := integer_literals_exact
  obtain ⟨hfifteen, hcode⟩ := hread hhex
  refine ⟨hfifteen, (hread (hdecimal _)).1, (hread hlarge).1, ?_⟩
  rw [succeeds, hcode ⟨{}, {}, .standard⟩ inIntFunction _ 0 ⟨_, rfl, Nat.one_pos, rfl⟩ (by decide) rfl
    rfl]
  rfl

end Gen

end TypedLowering
