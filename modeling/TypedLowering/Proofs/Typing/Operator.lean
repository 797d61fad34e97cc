import TypedLowering.Lowering.Operator
import TypedLowering.Proofs.Typing.Conversion

/-!
Operators. Their operands are converted to the type of the instruction, and the phis that join
branches get arms of one type.
-/
namespace TypedLowering
set_option autoImplicit false
open Ssa Ssa.Function

/-- The representation of a primitive type. -/
def NumericClass.lowered : NumericClass → Ty
  | .integer => .i32
  | .float => .f64
  | .boolean => .i1

theorem StaticType.lowered_of_numericClass {t : StaticType} {c : NumericClass}
    (h : t.numericClass = some c) (span : Span) : t.lowered span = .ok c.lowered := by
  cases t <;> cases h <;> rfl

namespace Gen

variable {env : Env} {p : Program} {w : TypedWorld p} {span : Span} {op : BinaryOp}
  {lhs rhs : Value}

/-! ## Arithmetic -/

theorem requireArithmetic_typed {v : Value} :
    Spec env w (requireArithmetic op v span) fun _ _ => True := by
  unfold requireArithmetic
  split
  · exact .pure trivial
  · exact .pure trivial
  · exact .unsupported

theorem requireInteger_typed {v : Value} :
    Spec env w (requireInteger op v span) fun _ x => x = w ∧ v.type = .int := by
  unfold requireInteger
  split
  · next h =>
    refine .pure ⟨rfl, ?_⟩
    cases ht : v.type <;> rw [ht] at h <;> first | rfl | cases h
  · exact .unsupported

/-- Two operands one after the other, converted to one type. -/
theorem castOperands_typed {α : Type} {t : StaticType} {f : ValueId → ValueId → Gen α}
    {Q : α → TypedWorld p → Prop} (hl : w.Yields lhs) (hr : w.Yields rhs)
    (hf : ∀ l r x, w ≤ x → x.Holds l t → x.Holds r t → Spec env x (f l r) Q) :
    Spec env w (do f (← castOperand lhs t span) (← castOperand rhs t span)) Q := by
  refine .bind (castOperand_typed hl) fun l x hx h₁ => ?_
  refine .bind (castOperand_typed (TypedWorld.yields hx hr)) fun r y hy h₂ => ?_
  exact hf l r y (hx.trans hy) (TypedWorld.holds hy h₁) h₂

/-- Two operands one after the other, of types with one representation. -/
theorem operands₂_typed {α : Type} {r : Ty} {f : ValueId → ValueId → Gen α}
    {Q : α → TypedWorld p → Prop} (hl : w.Yields lhs) (hr : w.Yields rhs)
    (htl : lhs.type.lowered .dummy = .ok r) (htr : rhs.type.lowered .dummy = .ok r)
    (hf : ∀ a b x, w ≤ x → x.Carries a r → x.Carries b r → Spec env x (f a b) Q) :
    Spec env w (do f (← operand lhs span) (← operand rhs span)) Q := by
  refine .bind (operand_carries hl htl) fun a x hx h₁ => ?_
  refine .bind (operand_carries (TypedWorld.yields hx hr) htr) fun b y hy h₂ => ?_
  exact hf a b y (hx.trans hy) (TypedWorld.carries hy h₁) h₂

/-- An operand as a value of a type with its representation. -/
theorem rvalue_typed {m : Gen ValueId} {t : StaticType} {ty : Ty} (ht : t.lowered .dummy = .ok ty)
    (hm : Spec env w m fun v x => x.Carries v ty) :
    Spec env w (do return Value.rvalue (← m) t) fun v x => x.Becomes v t :=
  .bind hm fun _ _ _ hv => .pure (hv.holds ht).becomes

theorem arithmetic_typed {resultType : StaticType} (hl : w.Yields lhs) (hr : w.Yields rhs) :
    Spec env w (arithmetic op lhs rhs resultType span) fun v x => x.Yields v := by
  refine .bind requireArithmetic_typed fun _ x hx _ => ?_
  refine .bind requireArithmetic_typed fun _ y hy _ => ?_
  have compute {t : StaticType} {ty : Ty} {inst : BinOp} (ht : t.lowered .dummy = .ok ty)
      (hi : inst.takes ty = true) : Spec env y (do
        let l ← castOperand lhs t span
        let r ← castOperand rhs t span
        return Value.rvalue (← emitBinary inst l r) t) fun v x => x.Yields v :=
    castOperands_typed (TypedWorld.yields (hx.trans hy) hl) (TypedWorld.yields (hx.trans hy) hr)
      fun l r z _ h₁ h₂ => (rvalue_typed ht (emitBinary_typed hi (h₁.carries ht)
        (h₂.carries ht))).yields
  split
  · exact compute (t := .int) rfl (by cases op <;> rfl)
  · exact compute (t := .number) rfl (by cases op <;> rfl)
  · exact .bind (.unsupported (Q := fun _ _ => False)) fun _ _ _ h => h.elim

/-- The power of two numbers. -/
theorem emitPower_typed {base exponent : ValueId} (hb : w.Carries base .f64)
    (he : w.Carries exponent .f64) :
    Spec env w (emitPower base exponent span) fun v x => x.Carries v .f64 :=
  .read rfl (.bind declareMath_typed fun _ _ hx hpow => callFunction_typed hpow
    (.cons (TypedWorld.carries hx hb) (.cons (TypedWorld.carries hx he) .nil)))

theorem power_typed (hl : w.Yields lhs) (hr : w.Yields rhs) :
    Spec env w (power op lhs rhs span) fun v x => x.Yields v := by
  refine .bind requireArithmetic_typed fun _ x hx _ => ?_
  refine .bind requireArithmetic_typed fun _ y hy _ => ?_
  refine castOperands_typed (TypedWorld.yields (hx.trans hy) hl)
    (TypedWorld.yields (hx.trans hy) hr) fun l r z _ h₁ h₂ => ?_
  exact (rvalue_typed rfl (emitPower_typed (h₁.carries rfl)
    (h₂.carries rfl))).yields

theorem shift_typed {inst : BinOp} {l r : ValueId} (hi : inst.takes .i32 = true)
    (hl : w.Carries l .i32) (hr : w.Carries r .i32) :
    Spec env w (shift inst l r) fun v x => x.Carries v .i32 := by
  refine .bind emitI32_typed fun mask x hx hm => ?_
  refine .bind (emitBinary_typed rfl (TypedWorld.carries hx hr) hm) fun count y hy hc => ?_
  exact emitBinary_typed hi (TypedWorld.carries (hx.trans hy) hl) hc

theorem bitwise_typed (hl : w.Yields lhs) (hr : w.Yields rhs) :
    Spec env w (bitwise op lhs rhs span) fun v x => x.Yields v := by
  refine .bind requireInteger_typed ?_
  rintro _ _ - ⟨rfl, hlt⟩
  refine .bind requireInteger_typed ?_
  rintro _ _ - ⟨rfl, hrt⟩
  refine operands₂_typed (r := .i32) hl hr (by rw [hlt]; rfl) (by rw [hrt]; rfl)
    fun l r z _ h₁ h₂ => ?_
  have finish {m : Gen ValueId} (hm : Spec env z m fun v x => x.Carries v .i32) :
      Spec env z (do return Value.rvalue (← m) .int) fun v x => x.Yields v :=
    (rvalue_typed rfl hm).yields
  split
  · exact finish (emitBinary_typed rfl h₁ h₂)
  · exact finish (emitBinary_typed rfl h₁ h₂)
  · exact finish (emitBinary_typed rfl h₁ h₂)
  · exact finish (shift_typed rfl h₁ h₂)
  · exact finish (shift_typed rfl h₁ h₂)
  · exact finish (shift_typed rfl h₁ h₂)

/-! ## Comparison -/

theorem lowered_of_isPointer {t : StaticType} (h : isPointer t = true) :
    t.lowered .dummy = .ok .ptr := by
  unfold isPointer at h
  split at h
  · assumption
  · cases h

theorem compareWords_typed {ty : Ty} (hw : ty.isWord = true) (hl : w.Yields lhs) (hr : w.Yields rhs)
    (htl : lhs.type.lowered .dummy = .ok ty) (htr : rhs.type.lowered .dummy = .ok ty) :
    Spec env w (compareWords op lhs rhs span) fun v x => x.Becomes v .boolean :=
  operands₂_typed hl hr htl htr fun _ _ _ _ h₁ h₂ => rvalue_typed rfl
    (emit_carries rfl fun hagree => ⟨rfl, ty, hw, (h₁ hagree).hasType, (h₂ hagree).hasType⟩)

theorem comparePlain_typed (hl : w.Yields lhs) (hr : w.Yields rhs) :
    Spec env w (comparePlain op lhs rhs span) fun v x => x.Becomes v .boolean := by
  have floats : Spec env w (do
      let l ← castOperand lhs .number span
      let r ← castOperand rhs .number span
      return Value.rvalue (← emit (.fcmp (floatPredicate op) l r)) .boolean)
      fun v x => x.Becomes v .boolean :=
    castOperands_typed hl hr fun l r z _ h₁ h₂ => rvalue_typed rfl (emit_carries rfl fun hagree =>
      ⟨rfl, ((h₁ hagree).isOperand rfl).hasType,
        ((h₂ hagree).isOperand rfl).hasType⟩)
  unfold comparePlain
  split
  · next hlc hrc =>
    exact compareWords_typed rfl hl hr (StaticType.lowered_of_numericClass hlc _)
      (StaticType.lowered_of_numericClass hrc _)
  · next hlc hrc =>
    split
    · exact compareWords_typed rfl hl hr (StaticType.lowered_of_numericClass hlc _)
        (StaticType.lowered_of_numericClass hrc _)
    · exact .unsupported
  · exact floats
  · exact floats
  · exact floats
  · split
    · next hsame =>
      simp only [Bool.and_eq_true] at hsame
      exact compareWords_typed rfl hl hr (lowered_of_isPointer hsame.1.2)
        (lowered_of_isPointer hsame.2)
    · exact .unsupported
  · exact .unsupported

/-- A side of an equality: a cell is a pointer, anything else an operand of the type compared. -/
def Side (w : TypedWorld p) (s : EqualitySide) : Prop :=
  if s.boxed then w.Carries s.operand .ptr else w.Holds s.operand s.payload

theorem Side.later {w x : TypedWorld p} (h : w ≤ x) {s : EqualitySide} (hs : Side w s) :
    Side x s := by
  unfold Side at hs ⊢
  split
  · next hb =>
    rw [if_pos hb] at hs
    exact TypedWorld.carries h hs
  · next hb =>
    rw [if_neg hb] at hs
    exact TypedWorld.holds h hs

theorem equalitySide_typed {v : Value} (hv : w.Yields v) :
    Spec env w (equalitySide v span) fun s x => Side x s := by
  refine .bind (operand_typed hv) fun a x _ ha => ?_
  split
  · next payload hp =>
    refine .pure ?_
    show x.Carries a .ptr
    refine ha.carries ?_
    unfold boxedPayload at hp
    split at hp
    · next ht => rw [ht]; rfl
    · cases hp
  · exact .pure ha

theorem emitIsUndefined_typed {s : EqualitySide} (hs : Side w s) :
    Spec env w (emitIsUndefined s) fun v x => x.Carries v .i1 := by
  unfold emitIsUndefined
  split
  · next hb =>
    unfold Side at hs
    rw [if_pos hb] at hs
    exact .bind emitNull_typed fun null x hx hn => emit_carries rfl fun hagree =>
      ⟨rfl, .ptr, rfl, (TypedWorld.carries hx hs hagree).hasType, (hn hagree).hasType⟩
  · exact emitBool_typed

theorem payloadValue_typed {s : EqualitySide} (hs : Side w s) :
    Spec env w (payloadValue s span) fun v x => x.Yields v := by
  unfold Side at hs
  unfold payloadValue
  split
  · next hb =>
    rw [if_pos hb] at hs
    refine .bind layout_typed ?_
    rintro lowered _ - ⟨ht, rfl⟩
    refine (rvalue_typed ht (emitLoad_typed fun hagree => ?_)).yields
    exact (hs hagree).pointsTo _
  · next hb =>
    rw [if_neg hb] at hs
    exact .pure hs

theorem compareNullable_typed {negated : Bool} (hl : w.Yields lhs) (hr : w.Yields rhs) :
    Spec env w (compareNullable lhs rhs negated span) fun v x => x.Becomes v .boolean := by
  refine .bind (equalitySide_typed hl) fun l x₁ h₁ hl => ?_
  refine .bind (equalitySide_typed (TypedWorld.yields h₁ hr)) fun r x₂ h₂ hr => ?_
  refine .bind (emitIsUndefined_typed (Side.later h₂ hl)) fun lu x₃ h₃ hlu => ?_
  refine .bind (emitIsUndefined_typed (Side.later h₃ hr)) fun ru x₄ h₄ hru => ?_
  have hlu := TypedWorld.carries h₄ hlu
  refine .bind (emitBinary_typed rfl hlu hru) fun both x₅ h₅ hboth => ?_
  refine .bind (emitBinary_typed rfl (TypedWorld.carries h₅ hlu) (TypedWorld.carries h₅ hru))
    fun either x₆ h₆ heither => .read rfl ?_
  refine .bind appendBlock_typed fun payload x₇ h₇ _ => ?_
  refine .bind appendBlock_typed fun merge x₈ h₈ _ => ?_
  have hboth := TypedWorld.carries (h₆.trans (h₇.trans h₈)) hboth
  have hl := Side.later (h₂.trans (h₃.trans (h₄.trans (h₅.trans (h₆.trans (h₇.trans h₈)))))) hl
  have hr := Side.later (h₃.trans (h₄.trans (h₅.trans (h₆.trans (h₇.trans h₈))))) hr
  refine jump_typed (fun hagree => (TypedWorld.carries (h₇.trans h₈) heither hagree).hasType)
    fun y hy => ?_
  refine .bind (payloadValue_typed (Side.later hy hl)) fun lv y₁ k₁ hlv => ?_
  refine .bind (payloadValue_typed (Side.later (hy.trans k₁) hr)) fun rv y₂ k₂ hrv => ?_
  refine .bind (comparePlain_typed (TypedWorld.yields k₂ hlv) hrv) fun e y₃ k₃ he => ?_
  refine .bind (operand_of_becomes he) fun equal y₄ k₄ hequal => .read rfl ?_
  refine jump_typed (fun _ => trivial) fun z hz => ?_
  have hboth := TypedWorld.carries (hy.trans (k₁.trans (k₂.trans (k₃.trans (k₄.trans hz))))) hboth
  have hequal := (TypedWorld.holds hz hequal).carries (t := .i1) rfl
  refine .bind (emitPhi_typed hboth hequal) fun result z₁ _ hresult => ?_
  split
  · refine .bind emitBool_typed fun truth z₂ hz₂ ht => ?_
    exact rvalue_typed rfl (emitBinary_typed rfl (TypedWorld.carries hz₂ hresult) ht)
  · exact .pure (hresult.holds rfl).becomes

theorem compare_typed (hl : w.Yields lhs) (hr : w.Yields rhs) :
    Spec env w (compare op lhs rhs span) fun v x => x.Yields v := by
  have h : Spec env w (compare op lhs rhs span) fun v x => x.Becomes v .boolean := by
    unfold compare
    dsimp only
    split
    · split
      · exact compareNullable_typed hl hr
      · exact .unsupported
    · exact comparePlain_typed hl hr
  exact h.yields

theorem strictBinary_typed {resultType : StaticType} (hl : w.Yields lhs) (hr : w.Yields rhs) :
    Spec env w (strictBinary op lhs rhs resultType span) fun v x => x.Yields v := by
  cases op with
  | add | sub | mul | div | rem => exact arithmetic_typed hl hr
  | exp => exact power_typed hl hr
  | bitAnd | bitOr | bitXor | shl | shr | ushr => exact bitwise_typed hl hr
  | eq | notEq | strictEq | strictNotEq | lt | ltEq | gt | gtEq => exact compare_typed hl hr
  | and | or => exact .internal

end Gen

/-! ## Operators on nodes -/

namespace Gen

section Nodes

variable {env : Env} {w : TypedWorld env.program} {generate : Generate} {n : Node} {span : Span}

theorem wrongForm_typed {α : Type} {kind : SyntaxKind} {Q : α → TypedWorld env.program → Prop} :
    Spec env w (wrongForm kind n : Gen α) Q := .internal

theorem condition_typed (hn : Types env generate n) :
    Spec env w (condition generate n) fun x y => y.Carries x .i1 := by
  refine .bind (hn w) fun v x _ hv => ?_
  split
  · next ht => exact operand_carries hv (by rw [ht]; rfl)
  · exact .unsupported

theorem logicalOperand_typed {op : BinaryOp} (hn : Types env generate n) :
    Spec env w (logicalOperand generate op n span) fun x y => y.Carries x .i1 := by
  refine .bind (hn w) fun v x _ hv => ?_
  split
  · next ht => exact operand_carries hv (by rw [ht]; rfl)
  · exact .unsupported

theorem shortCircuit_typed {op : BinaryOp} {left right : Node} (hl : Types env generate left)
    (hr : Types env generate right) :
    Spec env w (shortCircuit generate op left right span) fun v x => x.Yields v := by
  refine .bind (logicalOperand_typed hl) fun l x₁ h₁ hlhs => .read rfl ?_
  refine .bind appendBlock_typed fun rhsBlock x₂ h₂ _ => ?_
  refine .bind appendBlock_typed fun merge x h₃ _ => ?_
  have hlhs := TypedWorld.carries (h₂.trans h₃) hlhs
  have joined (y : TypedWorld env.program) (hy : x ≤ y) : Spec env y (do
      let rhs ← logicalOperand generate op right span
      let rhsEnd ← currentBlock
      terminate (.br merge)
      positionAt merge
      return Value.rvalue (← emit (.phi .i1 [(l, x₁.state.frame.block), (rhs, rhsEnd)])) .boolean)
      fun v z => z.Yields v := by
    refine .bind (logicalOperand_typed hr) fun r y₁ k₁ hrhs => .read rfl ?_
    refine jump_typed (fun _ => trivial) fun z hz => ?_
    exact (rvalue_typed rfl (emitPhi_typed (TypedWorld.carries (hy.trans (k₁.trans hz)) hlhs)
      (TypedWorld.carries hz hrhs))).yields
  split
  · exact jump_typed (fun hagree => (hlhs hagree).hasType) joined
  · exact jump_typed (fun hagree => (hlhs hagree).hasType) joined

theorem unaryOperand_typed {op : UnaryOp} {v : Value} (hv : w.Yields v) :
    Spec env w (unaryOperand op v span) fun x y => y.Holds x v.type := by
  -- an instruction on the operand and a constant of its type
  have against {c : Constant} {k : ValueId → ValueId → Gen ValueId}
      (hc : v.type.lowered .dummy = .ok c.type)
      (hk : ∀ x y z, z.Carries x c.type → z.Carries y c.type →
        Spec env z (k x y) fun r (z' : TypedWorld env.program) => z'.Carries r c.type) :
      Spec env w (do
        let x ← operand v span
        let y ← emitConst c
        k x y) fun x y => y.Holds x v.type := by
    refine .bind (operand_carries hv hc) fun x y₁ _ hx => ?_
    refine .bind emitConst_typed fun y y₂ h₂ hy => ?_
    exact (hk x y y₂ (TypedWorld.carries h₂ hx) hy).mono fun _ _ _ hr => hr.holds hc
  unfold unaryOperand
  split
  · next hc =>
    exact against (c := .i32 0) (StaticType.lowered_of_numericClass hc _)
      fun _ _ _ hx hy => emitBinary_typed rfl hy hx
  · next hc =>
    have hc := StaticType.lowered_of_numericClass hc .dummy
    refine .bind (operand_carries hv hc) fun x y _ hx => ?_
    exact (emit_carries (d := .fneg x) rfl fun hagree => ⟨rfl, (hx hagree).hasType⟩).mono
      fun _ _ _ hr => hr.holds hc
  · exact operand_typed hv
  · exact operand_typed hv
  · next hc =>
    exact against (c := .bool true) (StaticType.lowered_of_numericClass hc _)
      fun _ _ _ hx hy => emitBinary_typed rfl hx hy
  · next hc =>
    exact against (c := .i32 (-1)) (StaticType.lowered_of_numericClass hc _)
      fun _ _ _ hx hy => emitBinary_typed rfl hx hy
  · exact .unsupported

theorem updateStep_typed {t : StaticType} {op : UpdateOp} {inst : BinOp} {one : Constant}
    (h : updateStep t op = some (inst, one)) :
    t.lowered .dummy = .ok one.type ∧ inst.takes one.type = true := by
  unfold updateStep at h
  split at h
  iterate 4
    next hc =>
      cases h
      exact ⟨StaticType.lowered_of_numericClass hc _, rfl⟩
  cases h

section Parts

variable (hp : ∀ q c, (q, c) ∈ n.form.parts → Types env generate c)
include hp

theorem paren_typed : Spec env w (paren generate n) fun v x => x.Yields v := by
  unfold paren
  split
  · next inner hform => exact hp .expression inner (by simp [hform, Form.parts]) w
  · exact wrongForm_typed

theorem binary_typed : Spec env w (binary generate n) fun v x => x.Yields v := by
  unfold binary
  split
  · next op left right hform =>
    have hl : Types env generate left := hp .expression _ (by simp [hform, Form.parts])
    have hr : Types env generate right := hp .expression _ (by simp [hform, Form.parts])
    have converted {t : StaticType} {x : TypedWorld env.program} (v : Value) (hv : x.Yields v) :
        Spec env x (castImplicit v t n.span) fun v x => x.Yields v :=
      (convert_typed hv).yields
    refine .read rfl ?_
    dsimp only
    split
    · exact .bind (shortCircuit_typed hl hr) fun v x _ hv => converted v hv
    · refine .bind (hl w) fun l x _ hlv => .bind (hr x) fun r y hy hrv => ?_
      exact .bind (strictBinary_typed (TypedWorld.yields hy hlv) hrv) fun v z _ hv => converted v hv
  · exact wrongForm_typed

theorem unary_typed : Spec env w (unary generate n) fun v x => x.Yields v := by
  unfold unary
  split
  · next op inner hform =>
    refine .bind (hp .expression inner (by simp [hform, Form.parts]) w) fun v x _ hv => ?_
    refine .bind (unaryOperand_typed hv) fun r y _ hr => .read rfl ?_
    exact (convert_typed (v := .rvalue r v.type) hr).yields
  · exact wrongForm_typed

theorem update_typed : Spec env w (update generate n) fun v x => x.Yields v := by
  unfold update
  split
  · next op before target hform =>
    refine .bind (hp .expression target (by simp [hform, Form.parts]) w) fun v x _ hv => ?_
    split
    · next a =>
      split
      · exact .unsupported
      · next inst one hstep =>
        obtain ⟨hone, hinst⟩ := updateStep_typed hstep
        refine .bind (load_typed hv) fun old y₁ h₁ hold => ?_
        refine .bind emitConst_typed fun c y₂ h₂ hc => ?_
        have hold := TypedWorld.holds h₂ hold
        refine .bind (emitBinary_typed hinst (hold.carries hone) hc) fun new y₃ h₃ hnew => ?_
        have hnew := hnew.holds hone
        have ha := TypedWorld.yields (h₁.trans (h₂.trans h₃)) hv
        refine .bind (store_typed ha hnew) fun _ y₄ h₄ _ => .pure ?_
        show y₄.Holds (if before then new else old) a.type
        split
        · exact TypedWorld.holds h₄ hnew
        · exact TypedWorld.holds (h₃.trans h₄) hold
    · exact .internal
  · exact wrongForm_typed

theorem assignment_typed : Spec env w (assignment generate n) fun v x => x.Yields v := by
  unfold assignment
  split
  · next op target value hform =>
    have hv : Types env generate value := hp .expression _ (by simp [hform, Form.parts])
    refine .bind (hp .expression target (by simp [hform, Form.parts]) w) fun v x _ ht => ?_
    split
    · next a =>
      split
      · exact .bind (hv x) fun r y hy hr => assign_typed (TypedWorld.yields hy ht) hr
      · split
        · exact .unsupported
        · refine .bind (load_typed ht) fun current y₁ h₁ hcurrent => ?_
          refine .bind (hv y₁) fun rhs y₂ h₂ hrhs => ?_
          have hcurrent : y₂.Yields (.rvalue current a.type) := TypedWorld.holds h₂ hcurrent
          refine .bind (strictBinary_typed hcurrent hrhs) fun result y₃ h₃ hresult => ?_
          exact assign_typed (TypedWorld.yields (h₁.trans (h₂.trans h₃)) ht) hresult
    · exact .internal
  · exact wrongForm_typed

theorem cast_typed : Spec env w (cast generate n) fun v x => x.Yields v := by
  unfold cast
  split
  · next inner hform =>
    refine .bind (hp .expression inner (by simp [hform, Form.parts]) w) fun v x _ hv => .read rfl ?_
    exact (convert_typed hv).yields
  · exact wrongForm_typed

omit hp in
/-- An arm of a conditional has the type of the whole. -/
theorem conditionalArm_typed {t : StaticType} (hn : Types env generate n) :
    Spec env w (conditionalArm generate n t span) fun r x => ∀ a, r = some a → x.Holds a t := by
  refine .bind (hn w) fun v x _ hv => ?_
  split
  · exact .pure fun a ha => by cases ha
  · refine .bind (castOperand_typed hv) fun a y _ ha => .pure fun b hb => ?_
    cases hb
    exact ha

theorem conditional_typed : Spec env w (conditional generate n) fun v x => x.Yields v := by
  unfold conditional
  split
  · next cond thenExpr elseExpr hform =>
    have hc : Types env generate cond := hp .expression _ (by simp [hform, Form.parts])
    have ht : Types env generate thenExpr := hp .expression _ (by simp [hform, Form.parts])
    have he : Types env generate elseExpr := hp .expression _ (by simp [hform, Form.parts])
    refine .read rfl (.bind (condition_typed hc) fun c x₁ _ hcond => ?_)
    refine .bind appendBlock_typed fun thenBlock x₂ h₂ _ => ?_
    refine .bind appendBlock_typed fun elseBlock x₃ h₃ _ => ?_
    refine .bind appendBlock_typed fun merge x₄ h₄ _ => ?_
    have hcond := TypedWorld.carries (h₂.trans (h₃.trans h₄)) hcond
    refine jump_typed (fun hagree => (hcond hagree).hasType) fun y _ => ?_
    refine .bind (conditionalArm_typed ht) fun a y₁ _ ha => .read rfl ?_
    refine jump_typed (fun _ => trivial) fun z hz => ?_
    refine .bind (conditionalArm_typed he) fun b z₁ hz₁ hb => .read rfl ?_
    refine jump_typed (fun _ => trivial) fun z₂ hz₂ => ?_
    split
    · next a b =>
      have ha := TypedWorld.holds (hz.trans (hz₁.trans hz₂)) (ha a rfl)
      have hb := TypedWorld.holds hz₂ (hb b rfl)
      refine .bind layout_typed ?_
      rintro lowered _ - ⟨hlowered, rfl⟩
      refine .bind (emitPhi_typed (ha.carries hlowered) (hb.carries hlowered)) fun r z₃ _ hr => ?_
      exact (valueOf_typed (hr.holds hlowered)).yields
    · exact .pure fun _ => trivial
  · exact wrongForm_typed

end Parts

end Nodes

end Gen

end TypedLowering
