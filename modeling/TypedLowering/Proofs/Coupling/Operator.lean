import TypedLowering.Lowering.Operator
import TypedLowering.Proofs.Coupling.Basic

/-!
Operators on values and the members of `Math` in two runs side by side.
-/
namespace TypedLowering
set_option autoImplicit false
open Ssa

/-- Sides of an equality with a nullable primitive that differ in nothing but the operand. -/
structure Gen.EqualitySide.Alike (E : ValueId → ValueId → Prop) (s s' : Gen.EqualitySide) : Prop where
  operand : E s.operand s'.operand
  payload : s'.payload = s.payload
  boxed : s'.boxed = s.boxed

namespace Gen.Coupling

variable {W : Type} [Preorder W] {K : Outlook W} {env env' : Env} {φ : StaticType → StaticType}
  {Calls : Signature → Prop} {Arg : StaticType → Prop} {generate generate' : Generate}
  {R : (α : Type) → W → (W → α → α → Prop) → Gen α → Gen α → Prop} {w : W} {n : Node}

/-! ## Members of `Math` -/

section Math

variable (h : Coupling K env env' φ Calls Arg generate generate' R)

include h

theorem emitPower {base base' exponent exponent' : ValueId} (hb : K.value base base')
    (he : K.value exponent exponent') (span : Span) :
    R ValueId w K.operand (Gen.emitPower base exponent span)
      (Gen.emitPower base' exponent' span) := by
  refine h.bind h.config ?_
  rintro _ _ _ - ⟨rfl, rfl⟩
  refine h.bind (h.declareMath _ _ (by decide) h.hints) fun _ i j _ hij => ?_
  exact h.callFunction hij (.cons hb (.cons he .nil)) h.hints

theorem emitRound {x x' : ValueId} (hx : K.value x x') (span : Span) :
    R ValueId w K.operand (Gen.emitRound x span) (Gen.emitRound x' span) := by
  refine h.bind h.config ?_
  rintro _ _ _ - ⟨rfl, rfl⟩
  refine h.bind (h.declareMath _ _ (by decide) h.hints) fun _ i j _ hij => ?_
  refine h.bind (h.callFunction hij (.cons hx .nil) h.hints) fun _ _ _ _ hdown => ?_
  refine h.bind (h.emitBinary _ hx hdown) fun _ _ _ _ hfraction => ?_
  refine h.bind (h.emitConst _) fun _ _ _ _ hhalf => ?_
  refine h.bind (h.emit (.fcmp _ hfraction hhalf)) fun _ _ _ _ hup => ?_
  refine h.bind (h.emitConst _) fun _ _ _ _ hone => ?_
  exact h.bind (h.emitBinary _ hdown hone) fun _ _ _ _ hnext => h.emitSelect hup hnext hdown

theorem mathField (member : String) (span : Span) :
    R Value w K.result (Gen.mathField member span) (Gen.mathField member span) := by
  unfold Gen.mathField
  split
  · exact h.map (h.emitConst _) fun _ _ _ _ he => .rvalue he _
  · exact h.unsupported
  · exact h.fail

theorem mathOperands {args : List Node} (ha : ∀ a ∈ args, Couples K φ generate generate' R a)
    (member : String) (arity : Nat) (span : Span) :
    R (List ValueId) w K.operands (Gen.mathOperands generate member args arity span)
      (Gen.mathOperands generate' member (args.map (Node.retyped φ)) arity span) := by
  unfold Gen.mathOperands
  rw [List.length_map]
  split
  · exact h.fail
  · split
    · exact h.unsupported
    · exact h.operands ha _

theorem mathCallOperand {args : List Node} (ha : ∀ a ∈ args, Couples K φ generate generate' R a)
    (member : String) (span : Span) :
    R ValueId w K.operand (Gen.mathCallOperand generate member args span)
      (Gen.mathCallOperand generate' member (args.map (Node.retyped φ)) span) := by
  unfold Gen.mathCallOperand
  split
  · next symbol arity hm =>
    refine h.bind (h.mathOperands ha _ _ _) fun _ operands operands' _ ho => h.bind h.config ?_
    rintro _ _ _ - ⟨rfl, rfl⟩
    refine h.bind (h.declareMath _ _ (MathMember.mem_symbols hm rfl) h.hints) fun _ i j _ hij => ?_
    exact h.callFunction hij ho h.hints
  · next symbol arity hm =>
    refine h.bind (h.mathOperands ha _ _ _) fun _ operands operands' _ ho => ?_
    refine h.bind (h.declareMath _ _ (MathMember.mem_symbols hm rfl) K.attributes_none)
      fun _ i j _ hij => ?_
    exact h.callFunction hij ho K.attributes_none
  · next symbol empty hm =>
    refine h.bind (h.operands ha _) fun _ operands operands' _ ho => ?_
    cases ho with
    | nil => exact h.emitConst _
    | cons hfirst hrest =>
      refine h.bind h.config ?_
      rintro _ _ _ - ⟨rfl, rfl⟩
      refine h.bind (h.declareMath _ _ (MathMember.mem_symbols hm rfl) h.hints)
        fun _ i j _ hij => ?_
      refine h.foldlM (fun y acc acc' next next' hy hacc hnext => ?_) hrest hfirst
      exact h.callFunction (K.declared_mono hy hij) (.cons hacc (.cons hnext .nil)) h.hints
  · refine h.bind (h.mathOperands ha _ _ _) fun _ operands operands' _ ho => ?_
    cases ho with
    | nil => exact h.throw (by simp) (by simp)
    | cons hfirst _ => exact h.emitRound hfirst _
  · exact h.bind (h.mathOperands ha _ _ _) fun _ _ _ _ _ => h.callSupport _ _ trivial .nil
  · exact h.unsupported
  · exact h.fail

theorem mathCall {args : List Node} (ha : ∀ a ∈ args, Couples K φ generate generate' R a)
    (member : String) (span : Span) :
    R Value w K.result (Gen.mathCall generate member args span)
      (Gen.mathCall generate' member (args.map (Node.retyped φ)) span) :=
  h.map (h.mathCallOperand ha member span) fun _ _ _ _ he => .rvalue he _

end Math

/-! ## Operators -/

section Values

variable (h : Coupling K env env' φ Calls Arg generate generate' R) {v v' u u' : Value}

include h

theorem requireArithmetic (op : BinaryOp) (hv : K.result w v v') (span : Span) :
    R Unit w (fun _ => Eq) (Gen.requireArithmetic op v span)
      (Gen.requireArithmetic op v' span) := by
  unfold Gen.requireArithmetic
  rw [hv.type_eq]
  split
  · exact h.pure rfl
  · exact h.pure rfl
  · exact h.unsupported

theorem requireInteger (op : BinaryOp) (hv : K.result w v v') (span : Span) :
    R Unit w (fun _ => Eq) (Gen.requireInteger op v span) (Gen.requireInteger op v' span) := by
  unfold Gen.requireInteger
  rw [hv.type_eq]
  split
  · exact h.pure rfl
  · exact h.unsupported

/-- The operands of two values at a type. -/
theorem castOperands (hv : K.result w v v') (hu : K.result w u u') (t : StaticType) (span : Span)
    {V : W → Value → Value → Prop} {f : ValueId → ValueId → Gen Value}
    (hf : ∀ x l l' r r', w ≤ x → K.value l l' → K.value r r' → R Value x V (f l r) (f l' r')) :
    R Value w V
      (do
        let l ← Gen.castOperand v t span
        let r ← Gen.castOperand u t span
        f l r)
      (do
        let l ← Gen.castOperand v' t span
        let r ← Gen.castOperand u' t span
        f l r) := by
  refine h.bind (h.castOperand hv t span) fun x l l' hx hl => ?_
  refine h.bind (h.castOperand (K.result_mono hx hu) t span) fun y r r' hy hr => ?_
  exact hf y l l' r r' (hx.trans hy) hl hr

/-- The operands of two values as they are. -/
theorem operandPair (hv : K.result w v v') (hu : K.result w u u') (span : Span)
    {V : W → Value → Value → Prop} {f : ValueId → ValueId → Gen Value}
    (hf : ∀ x l l' r r', w ≤ x → K.value l l' → K.value r r' → R Value x V (f l r) (f l' r')) :
    R Value w V
      (do
        let l ← Gen.operand v span
        let r ← Gen.operand u span
        f l r)
      (do
        let l ← Gen.operand v' span
        let r ← Gen.operand u' span
        f l r) := by
  refine h.bind (h.operand hv span) fun x l l' hx hl => ?_
  refine h.bind (h.operand (K.result_mono hx hu) span) fun y r r' hy hr => ?_
  exact hf y l l' r r' (hx.trans hy) hl hr

theorem arithmetic (op : BinaryOp) (hv : K.result w v v') (hu : K.result w u u')
    (t : StaticType) (span : Span) :
    R Value w K.result (Gen.arithmetic op v u t span) (Gen.arithmetic op v' u' t span) := by
  have computed (x : W) (hx : w ≤ x) (t : StaticType) (inst : BinOp) : R Value x K.result
      (do
        let l ← Gen.castOperand v t span
        let r ← Gen.castOperand u t span
        return Value.rvalue (← Gen.emitBinary inst l r) t)
      (do
        let l ← Gen.castOperand v' t span
        let r ← Gen.castOperand u' t span
        return Value.rvalue (← Gen.emitBinary inst l r) t) := by
    refine h.castOperands (K.result_mono hx hv) (K.result_mono hx hu) t span ?_
    intro y l l' r r' _ hl hr
    exact h.map (h.emitBinary _ hl hr) fun _ _ _ _ he => .rvalue he _
  refine h.seq (h.requireArithmetic _ hv _) fun x _ hx => ?_
  refine h.seq (h.requireArithmetic _ (K.result_mono hx hu) _) fun y _ hy => ?_
  have hwy : w ≤ y := hx.trans hy
  dsimp only
  split
  · exact h.seq (h.pure rfl) fun z choice hz => computed z (hwy.trans hz) _ _
  · exact h.seq (h.pure rfl) fun z choice hz => computed z (hwy.trans hz) _ _
  · exact h.seq h.unsupported fun z choice hz => computed z (hwy.trans hz) _ _

theorem power (op : BinaryOp) (hv : K.result w v v') (hu : K.result w u u') (span : Span) :
    R Value w K.result (Gen.power op v u span) (Gen.power op v' u' span) := by
  refine h.seq (h.requireArithmetic _ hv _) fun x _ hx => ?_
  refine h.seq (h.requireArithmetic _ (K.result_mono hx hu) _) fun y _ hy => ?_
  have hwy : w ≤ y := hx.trans hy
  refine h.castOperands (K.result_mono hwy hv) (K.result_mono hwy hu) .number span ?_
  intro z l l' r r' _ hl hr
  exact h.map (h.emitPower hl hr _) fun _ _ _ _ he => .rvalue he _

theorem shift (inst : BinOp) {l l' r r' : ValueId} (hl : K.value l l') (hr : K.value r r') :
    R ValueId w K.operand (Gen.shift inst l r) (Gen.shift inst l' r') := by
  refine h.bind (h.emitConst _) fun _ _ _ _ hmask => ?_
  exact h.bind (h.emitBinary _ hr hmask) fun _ _ _ _ hcount => h.emitBinary _ hl hcount

theorem bitwise (op : BinaryOp) (hv : K.result w v v') (hu : K.result w u u') (span : Span) :
    R Value w K.result (Gen.bitwise op v u span) (Gen.bitwise op v' u' span) := by
  refine h.seq (h.requireInteger _ hv _) fun x _ hx => ?_
  refine h.seq (h.requireInteger _ (K.result_mono hx hu) _) fun y _ hy => ?_
  have hwy : w ≤ y := hx.trans hy
  refine h.operandPair (K.result_mono hwy hv) (K.result_mono hwy hu) span ?_
  intro z l l' r r' _ hl hr
  split
  iterate 3 exact h.map (h.emitBinary _ hl hr) fun _ _ _ _ he => .rvalue he _
  all_goals exact h.map (h.shift _ hl hr) fun _ _ _ _ he => .rvalue he _

theorem compareWords (op : BinaryOp) (hv : K.result w v v') (hu : K.result w u u') (span : Span) :
    R Value w K.result (Gen.compareWords op v u span) (Gen.compareWords op v' u' span) :=
  h.operandPair hv hu span fun _ _ _ _ _ _ hl hr =>
    h.map (h.emit (.icmp _ hl hr)) fun _ _ _ _ he => .rvalue he _

theorem comparePlain (op : BinaryOp) (hv : K.result w v v') (hu : K.result w u u') (span : Span) :
    R Value w K.result (Gen.comparePlain op v u span) (Gen.comparePlain op v' u' span) := by
  have numbers : R Value w K.result
      (do
        let l ← Gen.castOperand v .number span
        let r ← Gen.castOperand u .number span
        return Value.rvalue (← Gen.emit (.fcmp (floatPredicate op) l r)) .boolean)
      (do
        let l ← Gen.castOperand v' .number span
        let r ← Gen.castOperand u' .number span
        return Value.rvalue (← Gen.emit (.fcmp (floatPredicate op) l r)) .boolean) :=
    h.castOperands hv hu .number span fun _ _ _ _ _ _ hl hr =>
      h.map (h.emit (.fcmp _ hl hr)) fun _ _ _ _ he => .rvalue he _
  unfold Gen.comparePlain
  rw [hv.type_eq, hu.type_eq]
  split
  · exact h.compareWords _ hv hu _
  · split
    · exact h.compareWords _ hv hu _
    · exact h.unsupported
  iterate 3 exact numbers
  · split
    · exact h.compareWords _ hv hu _
    · exact h.unsupported
  · exact h.unsupported

theorem equalitySide (hv : K.result w v v') (span : Span) :
    R EqualitySide w (fun _ => EqualitySide.Alike K.value) (Gen.equalitySide v span)
      (Gen.equalitySide v' span) := by
  unfold Gen.equalitySide
  rw [hv.type_eq]
  refine h.bind (h.operand hv span) fun _ x x' _ hx => ?_
  split
  · exact h.pure ⟨hx, rfl, rfl⟩
  · exact h.pure ⟨hx, rfl, rfl⟩

theorem emitIsUndefined {side side' : EqualitySide} (hs : side.Alike K.value side') :
    R ValueId w K.operand (Gen.emitIsUndefined side) (Gen.emitIsUndefined side') := by
  unfold Gen.emitIsUndefined
  rw [hs.boxed]
  split
  · exact h.bind (h.emitConst _) fun _ _ _ _ hnull => h.emit (.icmp _ hs.operand hnull)
  · exact h.emitConst _

theorem payloadValue {side side' : EqualitySide} (hs : side.Alike K.value side') (span : Span) :
    R Value w K.result (Gen.payloadValue side span) (Gen.payloadValue side' span) := by
  unfold Gen.payloadValue
  rw [hs.boxed, hs.payload]
  split
  · refine h.seq (h.layout _ _) fun _ _ _ => ?_
    exact h.map (h.emit (.load _ hs.operand)) fun _ _ _ _ he => .rvalue he _
  · exact h.pure (.rvalue hs.operand _)

theorem compareNullable (hv : K.result w v v') (hu : K.result w u u') (negated : Bool)
    (span : Span) :
    R Value w K.result (Gen.compareNullable v u negated span)
      (Gen.compareNullable v' u' negated span) := by
  refine h.bind (h.equalitySide hv _) fun x l l' hx hl => ?_
  refine h.bind (h.equalitySide (K.result_mono hx hu) _) fun _ r r' _ hr => ?_
  refine h.bind (h.emitIsUndefined hl) fun _ _ _ _ hlu => ?_
  refine h.bind (h.emitIsUndefined hr) fun _ _ _ _ hru => ?_
  refine h.bind (h.emitBinary _ hlu hru) fun _ _ _ _ hboth => ?_
  refine h.bind (h.emitBinary _ hlu hru) fun _ _ _ _ heither => ?_
  refine h.seq h.currentBlock fun _ entry _ => h.bind (h.appendBlock _) ?_
  rintro x₁ payload _ - ⟨rfl, hpayload⟩
  refine h.bind (h.appendBlock _) ?_
  rintro x₂ merge _ h₂ ⟨rfl, hmerge⟩
  refine h.seq (h.terminate (.condBr heither _ _)) fun x₃ _ h₃ => ?_
  refine h.seq (h.positionAt (K.block_mono (h₂.trans h₃) hpayload)) fun x₄ _ h₄ => ?_
  refine h.bind (h.payloadValue hl _) fun x₅ a a' h₅ ha => ?_
  refine h.bind (h.payloadValue hr _) fun x₆ b b' h₆ hb => ?_
  refine h.bind (h.comparePlain _ (K.result_mono h₆ ha) hb _) fun x₇ c c' h₇ hc => ?_
  refine h.bind (h.operand hc _) fun x₈ equal equal' h₈ hequal => ?_
  refine h.seq h.currentBlock fun x₉ _ h₉ => h.seq (h.terminate (.br _)) fun y _ hy => ?_
  have hlast : x₂ ≤ y := h₃.trans (h₄.trans (h₅.trans (h₆.trans (h₇.trans (h₈.trans (h₉.trans hy))))))
  refine h.seq (h.positionAt (K.block_mono hlast hmerge)) fun _ _ _ => ?_
  refine h.bind (h.emit (.phi _ hboth hequal _ _)) fun _ result result' _ hresult => ?_
  split
  · refine h.bind (h.emitConst _) fun _ _ _ _ htruth => ?_
    exact h.map (h.emitBinary _ hresult htruth) fun _ _ _ _ he => .rvalue he _
  · exact h.pure (.rvalue hresult _)

theorem compare (op : BinaryOp) (hv : K.result w v v') (hu : K.result w u u') (span : Span) :
    R Value w K.result (Gen.compare op v u span) (Gen.compare op v' u' span) := by
  unfold Gen.compare
  rw [hv.type_eq, hu.type_eq]
  dsimp only
  split
  · split
    · exact h.compareNullable hv hu _ _
    · exact h.unsupported
  · exact h.comparePlain _ hv hu _

theorem strictBinary (op : BinaryOp) (hv : K.result w v v') (hu : K.result w u u')
    (t : StaticType) (span : Span) :
    R Value w K.result (Gen.strictBinary op v u t span) (Gen.strictBinary op v' u' t span) := by
  unfold Gen.strictBinary
  split
  iterate 5 exact h.arithmetic _ hv hu _ _
  · exact h.power _ hv hu _
  iterate 6 exact h.bitwise _ hv hu _
  iterate 8 exact h.compare _ hv hu _
  all_goals exact h.internal

theorem unaryOperand (op : UnaryOp) (hv : K.result w v v') (span : Span) :
    R ValueId w K.operand (Gen.unaryOperand op v span) (Gen.unaryOperand op v' span) := by
  have against (c : Constant) (f : ValueId → ValueId → Gen ValueId)
      (hf : ∀ y a a' b b', K.value a a' → K.value b b' → R ValueId y K.operand (f a b) (f a' b')) :
      R ValueId w K.operand
        (do
          let x ← Gen.operand v span
          let y ← Gen.emitConst c
          f x y)
        (do
          let x ← Gen.operand v' span
          let y ← Gen.emitConst c
          f x y) :=
    h.bind (h.operand hv _) fun _ _ _ _ hx => h.bind (h.emitConst _) fun _ _ _ _ hy =>
      hf _ _ _ _ _ hx hy
  unfold Gen.unaryOperand
  rw [hv.type_eq]
  split
  · exact against _ _ fun _ _ _ _ _ hx hy => h.emitBinary _ hy hx
  · exact h.bind (h.operand hv _) fun _ _ _ _ hx => h.emit (.fneg hx)
  · exact h.operand hv _
  · exact h.operand hv _
  · exact against _ _ fun _ _ _ _ _ hx hy => h.emitBinary _ hx hy
  · exact against _ _ fun _ _ _ _ _ hx hy => h.emitBinary _ hx hy
  · exact h.unsupported

end Values

end Gen.Coupling

end TypedLowering
