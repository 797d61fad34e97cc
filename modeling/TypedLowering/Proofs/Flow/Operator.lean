import TypedLowering.Lowering.Operator
import TypedLowering.Proofs.Flow.Branch

/-!
Operators yield values that can be read. Those that branch join their parts in a phi; its arms stand
for the blocks in which the parts ended, and these are the only ones that lead to it.
-/
namespace TypedLowering
set_option autoImplicit false
open Ssa Ssa.Function

namespace Gen

variable {env : Env} {w : Site} {generate : Generate}

theorem condition_spec {n : Node} (hn : Yields env generate n) :
    Spec env w (condition generate n) fun v x => x.Has v := by
  refine .bind (hn w) fun v x _ hv => ?_
  split
  · exact operand_spec hv
  · exact .unsupported

/-! ## Arithmetic -/

theorem requireArithmetic_spec {op : BinaryOp} {v : Value} {span : Span} :
    Spec env w (requireArithmetic op v span) fun _ _ => True := by
  unfold requireArithmetic
  split
  · exact .pure trivial
  · exact .pure trivial
  · exact .unsupported

theorem requireInteger_spec {op : BinaryOp} {v : Value} {span : Span} :
    Spec env w (requireInteger op v span) fun _ _ => True := by
  unfold requireInteger
  split
  · exact .pure trivial
  · exact .unsupported

variable {op : BinaryOp} {lhs rhs : Value} {span : Span}

/-- Two operands one after the other, both of which can be read then. -/
theorem castOperands_spec {α : Type} {t : StaticType} {f : ValueId → ValueId → Gen α}
    {Q : α → Site → Prop} (hl : w.Holds lhs) (hr : w.Holds rhs)
    (hf : ∀ l r x, x.Has l → x.Has r → Spec env x (f l r) Q) :
    Spec env w (do f (← castOperand lhs t span) (← castOperand rhs t span)) Q := by
  refine .bind (castOperand_spec hl) fun l x hx h₁ => ?_
  refine .bind (castOperand_spec (Site.holds hx hr)) fun r y hy h₂ => ?_
  exact hf l r y (Site.has hy h₁) h₂

theorem operands₂_spec {α : Type} {f : ValueId → ValueId → Gen α}
    {Q : α → Site → Prop} (hl : w.Holds lhs) (hr : w.Holds rhs)
    (hf : ∀ l r x, x.Has l → x.Has r → Spec env x (f l r) Q) :
    Spec env w (do f (← operand lhs span) (← operand rhs span)) Q := by
  refine .bind (operand_spec hl) fun l x hx h₁ => ?_
  refine .bind (operand_spec (Site.holds hx hr)) fun r y hy h₂ => ?_
  exact hf l r y (Site.has hy h₁) h₂

theorem arithmetic_spec {resultType : StaticType} (hl : w.Holds lhs) (hr : w.Holds rhs) :
    Spec env w (arithmetic op lhs rhs resultType span) fun v x => x.Holds v := by
  refine .bind requireArithmetic_spec fun _ x hx _ => ?_
  refine .bind requireArithmetic_spec fun _ y hy _ => ?_
  have compute {t : StaticType} {inst : BinOp} : Spec env y (do
      let l ← castOperand lhs t span
      let r ← castOperand rhs t span
      return Value.rvalue (← emitBinary inst l r) t) fun v x => x.Holds v :=
    castOperands_spec (Site.holds (hx.trans hy) hl) (Site.holds (hx.trans hy) hr)
      fun l r z h₁ h₂ => .bind (emitBinary_spec h₁ h₂) fun v _ _ hv => .pure (by simpa using hv)
  split
  · exact compute
  · exact compute
  · exact .bind (.unsupported (Q := fun _ _ => False)) fun _ _ _ h => h.elim

theorem power_spec (hl : w.Holds lhs) (hr : w.Holds rhs) :
    Spec env w (power op lhs rhs span) fun v x => x.Holds v := by
  refine .bind requireArithmetic_spec fun _ x hx _ => ?_
  refine .bind requireArithmetic_spec fun _ y hy _ => ?_
  exact castOperands_spec (Site.holds (hx.trans hy) hl) (Site.holds (hx.trans hy) hr)
    fun l r z h₁ h₂ => .bind (emitPower_spec h₁ h₂) fun v _ _ hv => .pure (by simpa using hv)

theorem shift_spec {inst : BinOp} {l r : ValueId} (hl : w.Has l) (hr : w.Has r) :
    Spec env w (shift inst l r) fun v x => x.Has v := by
  refine .bind emitI32_spec fun mask x hx hm => ?_
  refine .bind (emitBinary_spec (Site.has hx hr) hm) fun count y hy hc => ?_
  exact emitBinary_spec (Site.has (hx.trans hy) hl) hc

theorem bitwise_spec (hl : w.Holds lhs) (hr : w.Holds rhs) :
    Spec env w (bitwise op lhs rhs span) fun v x => x.Holds v := by
  refine .bind requireInteger_spec fun _ x hx _ => ?_
  refine .bind requireInteger_spec fun _ y hy _ => ?_
  refine operands₂_spec (Site.holds (hx.trans hy) hl) (Site.holds (hx.trans hy) hr)
    fun l r z h₁ h₂ => ?_
  have finish {m : Gen ValueId} (hm : Spec env z m fun v x => x.Has v) :
      Spec env z (do return Value.rvalue (← m) .int) fun v x => x.Holds v :=
    .bind hm fun v _ _ hv => .pure (by simpa using hv)
  split
  · exact finish (emitBinary_spec h₁ h₂)
  · exact finish (emitBinary_spec h₁ h₂)
  · exact finish (emitBinary_spec h₁ h₂)
  · exact finish (shift_spec h₁ h₂)
  · exact finish (shift_spec h₁ h₂)
  · exact finish (shift_spec h₁ h₂)

/-! ## Comparison -/

theorem compareWords_spec (hl : w.Holds lhs) (hr : w.Holds rhs) :
    Spec env w (compareWords op lhs rhs span) fun v x => x.Holds v :=
  operands₂_spec hl hr fun l r z h₁ h₂ => .bind (emit_spec (by simp [h₁, h₂])) fun v _ _ hv =>
    .pure (by simpa using hv)

theorem comparePlain_spec (hl : w.Holds lhs) (hr : w.Holds rhs) :
    Spec env w (comparePlain op lhs rhs span) fun v x => x.Holds v := by
  have floats : Spec env w (do
      let l ← castOperand lhs .number span
      let r ← castOperand rhs .number span
      return Value.rvalue (← emit (.fcmp (floatPredicate op) l r)) .boolean)
      fun v x => x.Holds v :=
    castOperands_spec hl hr fun l r z h₁ h₂ => .bind (emit_spec (by simp [h₁, h₂])) fun v _ _ hv =>
      .pure (by simpa using hv)
  unfold comparePlain
  split
  · exact compareWords_spec hl hr
  · split
    · exact compareWords_spec hl hr
    · exact .unsupported
  · exact floats
  · exact floats
  · exact floats
  · split
    · exact compareWords_spec hl hr
    · exact .unsupported
  · exact .unsupported

theorem equalitySide_spec {v : Value} (hv : w.Holds v) :
    Spec env w (equalitySide v span) fun s x => x.Has s.operand := by
  refine .bind (operand_spec hv) fun a x _ ha => ?_
  split
  · exact .pure ha
  · exact .pure ha

theorem emitIsUndefined_spec {s : EqualitySide} (hs : w.Has s.operand) :
    Spec env w (emitIsUndefined s) fun v x => x.Has v := by
  unfold emitIsUndefined
  split
  · exact .bind emitNull_spec fun null x hx hn => emit_spec (by simp [Site.has hx hs, hn])
  · exact emitBool_spec

theorem payloadValue_spec {s : EqualitySide} (hs : w.Has s.operand) :
    Spec env w (payloadValue s span) fun v x => x.Holds v := by
  unfold payloadValue
  split
  · refine .bind layout_spec fun lowered x hx _ => ?_
    refine .bind (emit_spec (by simpa using Site.has hx hs)) fun v _ _ hv => ?_
    exact .pure (by simpa using hv)
  · exact .pure (by simpa using hs)

/-- From `x` control goes to the code of `m` and from there, or at once, to `z`, where a phi takes the
result of `m` or else `a`. -/
def SideBranch (env : Env) (m : Gen ValueId) (t : BlockId → BlockId → Terminator) (a : ValueId)
    (x z : Site) (r : ValueId) : Prop :=
  ∃ (y y' z₀ : Site) (v : ValueId), x.toWorld ≤ y.toWorld ∧ x.toWorld ≤ z₀.toWorld ∧
    x.toWorld.ClosedIn z.fn (t y.block z₀.block) ∧ Arm env z.fn z₀.block m y y' v ∧
    z₀.toWorld.HeadIn z.fn ∧ z₀.toWorld.Joins z.toWorld r [(a, x.block), (v, y'.block)]

theorem sideBranch_spec {β : Type} {x : Site} (words : String × String) (lowered : Ty)
    {t : BlockId → BlockId → Terminator} {c a : ValueId} {m : Gen ValueId} {k : ValueId → Gen β}
    {R : β → Site → Prop} (hu : ∀ side merge, (t side merge).uses = [c])
    (hs : ∀ side merge b, b ∈ (t side merge).successors ↔ b = side ∨ b = merge)
    (hc : x.Has c) (ha : x.Has a)
    (hm : ∀ y : Site, x.toWorld ≤ y.toWorld → Spec env y m fun v z => z.Has v)
    (hk : ∀ r (z : Site), z.Has r → SideBranch env m t a x z r → Spec env z (k r) R) :
    Spec env x (do
      let side ← appendBlock words.1
      let merge ← appendBlock words.2
      terminate (t side merge)
      positionAt side
      let v ← m
      let last ← currentBlock
      terminate (.br merge)
      positionAt merge
      let r ← emit (.phi lowered [(a, x.block), (v, last)])
      k r) R := by
  refine .of_onward ?_
  refine .bind_block (le_refl _) rfl fun side y₁ hy₁ hb₁ hl₁ hside _ _ => ?_
  refine .bind_block hy₁ hl₁ fun merge y₂ hy₂ hb₂ hl₂ hmerge hnew hfrom => ?_
  have hne := hside.ne_of_added hnew
  have hxy₂ : x ≤ y₂ := hy₁.trans hy₂
  have hstays := hb₁.trans hb₂
  have hside := hside.later hy₂.1
  -- the block where the branch starts ends
  refine .bind (terminate_onward hxy₂ ?_ ?_) fun _ y₃ hy₃ hend => ?_
  · simpa [hu] using Site.has hxy₂ hc
  · intro b hb
    rcases (hs side merge b).mp hb with rfl | rfl
    · exact .inl hside.toLanding
    · exact .inl hmerge.toLanding
  have hfrom := hfrom.ends_at hend ((hs side merge merge).mpr (.inr rfl))
  refine .bind_position hy₃ (hside.ends hend) fun y₄ hy₄ hmove => ?_
  have hmerge := (hmerge.ends hend).moves hmove hne
  have hfrom := hfrom.moves hmove
  have hnew₄ : ¬ x.fn.HasBlock y₄.block := by
    rw [hmove.block]
    exact hside.isNew
  have hhead := (hside.ends hend).headIn hmove
  have htest := hend.closedIn.completed hmove.completes
  -- the side is generated, wherever it ends
  refine .bind_site hy₄ (hm y₄ hy₄).track fun v y₅ hy₅ hv => .read rfl ?_
  obtain ⟨hv, hrun⟩ := hv
  have hnew₅ := World.not_hasBlock_of_later hy₄ hnew₄ hy₅.1
  have hfrom := hfrom.later hy₄ hmerge.toLanding hy₅.1
  have hy₄₅ : x.toWorld ≤ y₅.toWorld := hy₄.trans hy₅
  refine .bind_meet hy₄₅ (hmerge.later hy₅.1) hfrom fun z hz hblock hfrom hknown hback hmeet => ?_
  refine .bind (phi_onward hz ?_ ?_ ?_ ?_) ?_
  · rw [hblock]
    exact hmerge.isNew
  · simp only [List.mem_cons, List.not_mem_nil, or_false, forall_eq_or_imp, forall_eq]
    exact ⟨hknown _ _ (hy₄₅.1.known x.inBlock ha), hknown _ _ hv⟩
  · have hdiff : x.block ≠ y₅.block := fun h => hnew₅ (h ▸ x.inBlock)
    simpa using hdiff
  · rw [hblock]
    simpa [hstays.block] using hfrom
  · rintro r _ hy ⟨z', rfl, hr, hjoin⟩
    have hdone : z'.fn.Completes y₄.fn :=
      hjoin.completes.trans (hback.completes.trans (Site.later hy₅).completes)
    refine .end_site hy (hk r z' hr ⟨y₄, y₅, z, v, hy₄, hz, ?_, ⟨?_, hrun, ?_⟩, ?_, hjoin⟩)
    · rw [hmove.block, hblock]
      exact (htest.completed hdone).stays hstays (Site.later hxy₂).completes
    · exact hhead.completed hdone
    · rw [hblock]
      exact hback.completed hjoin.completes
    · exact hmeet.completed hjoin.completes

/-- Equality of two sides of which one may be a cell. -/
def compareSides (lhs rhs : EqualitySide) (negated : Bool) (span : Span) : Gen Value := do
  let lhsUndefined ← emitIsUndefined lhs
  let rhsUndefined ← emitIsUndefined rhs
  let both ← emitBinary .and lhsUndefined rhsUndefined
  let either ← emitBinary .or lhsUndefined rhsUndefined
  let entry ← currentBlock
  let payloadBlock ← appendBlock "eq.payload"
  let merge ← appendBlock "eq.end"
  terminate (.condBr either merge payloadBlock)
  positionAt payloadBlock
  let l ← payloadValue lhs span
  let r ← payloadValue rhs span
  let equal ← operand (← comparePlain .strictEq l r span) span
  let payloadEnd ← currentBlock
  terminate (.br merge)
  positionAt merge
  let result ← emit (.phi .i1 [(both, entry), (equal, payloadEnd)])
  if negated then
    let truth ← emitBool true
    return .rvalue (← emitBinary .xor result truth) .boolean
  else return .rvalue result .boolean

theorem compareNullable_eq (lhs rhs : Value) (negated : Bool) (span : Span) :
    compareNullable lhs rhs negated span =
      equalitySide lhs span >>= fun l => equalitySide rhs span >>= fun r =>
        compareSides l r negated span := rfl

/-- The code that compares two sides that are there. -/
def comparePresent (l r : EqualitySide) (span : Span) : Gen ValueId := do
  let l ← payloadValue l span
  let r ← payloadValue r span
  operand (← comparePlain .strictEq l r span) span

/-- The result of the test, or where no side is undefined that of the comparison. -/
def payloadBranch (l r : EqualitySide) (both either : ValueId) (entry : BlockId) (span : Span) :
    Gen ValueId := do
  let payloadBlock ← appendBlock "eq.payload"
  let merge ← appendBlock "eq.end"
  terminate (.condBr either merge payloadBlock)
  positionAt payloadBlock
  let equal ← comparePresent l r span
  let payloadEnd ← currentBlock
  terminate (.br merge)
  positionAt merge
  emit (.phi .i1 [(both, entry), (equal, payloadEnd)])

def negateIf (negated : Bool) (v : ValueId) : Gen ValueId := do
  if negated then
    let truth ← emitBool true
    emitBinary .xor v truth
  else return v

/-- The operand of `compareSides`. -/
def sidesOperand (l r : EqualitySide) (negated : Bool) (span : Span) : Gen ValueId := do
  let lhsUndefined ← emitIsUndefined l
  let rhsUndefined ← emitIsUndefined r
  let both ← emitBinary .and lhsUndefined rhsUndefined
  let either ← emitBinary .or lhsUndefined rhsUndefined
  let entry ← currentBlock
  let result ← payloadBranch l r both either entry span
  negateIf negated result

theorem compareSides_eq (l r : EqualitySide) (negated : Bool) (span : Span) :
    compareSides l r negated span = do
      return .rvalue (← sidesOperand l r negated span) .boolean := by
  cases negated <;>
    simp [compareSides, sidesOperand, payloadBranch, comparePresent, negateIf, bind_assoc]

theorem comparePresent_spec {l r : EqualitySide} (hl : w.Has l.operand) (hr : w.Has r.operand) :
    Spec env w (comparePresent l r span) fun v x => x.Has v := by
  refine .bind (payloadValue_spec hl) fun lv x hx hlv => ?_
  refine .bind (payloadValue_spec (Site.has hx hr)) fun rv y hy hrv => ?_
  exact .bind (comparePlain_spec (Site.holds hy hlv) hrv) fun e z _ he => operand_spec he

theorem payloadBranch_spec {l r : EqualitySide} {both either : ValueId} {x : Site}
    (hl : x.Has l.operand) (hr : x.Has r.operand) (hboth : x.Has both) (heither : x.Has either) :
    Spec env x (payloadBranch l r both either x.block span) fun v z =>
      z.Has v ∧ SideBranch env (comparePresent l r span)
        (fun side merge => .condBr either merge side) both x z v := by
  have h := sideBranch_spec ("eq.payload", "eq.end") .i1 (k := pure)
    (t := fun side merge => .condBr either merge side) (fun _ _ => rfl)
    (fun side merge b => by simp [Terminator.successors, or_comm]) heither hboth
    (fun y hy => comparePresent_spec (World.later hy |>.has hl) (World.later hy |>.has hr))
    (R := fun v z => z.Has v ∧ SideBranch env (comparePresent l r span)
      (fun side merge => .condBr either merge side) both x z v)
    fun v z hv hside => .pure ⟨hv, hside⟩
  simp only [bind_pure] at h
  exact h

theorem negateIf_spec {negated : Bool} {v : ValueId} (hv : w.Has v) :
    Spec env w (negateIf negated v) fun v x => x.Has v := by
  unfold negateIf
  split
  · exact .bind emitBool_spec fun truth x hx ht => emitBinary_spec (Site.has hx hv) ht
  · exact .pure hv

theorem sidesOperand_spec {l r : EqualitySide} {negated : Bool} (hl : w.Has l.operand)
    (hr : w.Has r.operand) : Spec env w (sidesOperand l r negated span) fun v x => x.Has v := by
  refine .bind (emitIsUndefined_spec hl) fun lu x₁ h₁ hlu => ?_
  refine .bind (emitIsUndefined_spec (Site.has h₁ hr)) fun ru x₂ h₂ hru => ?_
  refine .bind (emitBinary_spec (Site.has h₂ hlu) hru) fun both x₃ h₃ hboth => ?_
  refine .bind (emitBinary_spec (Site.has (h₂.trans h₃) hlu) (Site.has h₃ hru))
    fun either x h₄ heither => .read rfl ?_
  have hwx : w ≤ x := h₁.trans (h₂.trans (h₃.trans h₄))
  exact .bind (payloadBranch_spec (Site.has hwx hl) (Site.has hwx hr) (Site.has h₄ hboth) heither)
    fun v z _ hv => negateIf_spec hv.1

theorem compareSides_spec {l r : EqualitySide} {negated : Bool} (hl : w.Has l.operand)
    (hr : w.Has r.operand) : Spec env w (compareSides l r negated span) fun v x => x.Holds v := by
  rw [compareSides_eq]
  exact .bind (sidesOperand_spec hl hr) fun _ _ _ hv => .pure (by simpa using hv)

theorem compareNullable_spec {negated : Bool} (hl : w.Holds lhs) (hr : w.Holds rhs) :
    Spec env w (compareNullable lhs rhs negated span) fun v x => x.Holds v := by
  rw [compareNullable_eq]
  refine .bind (equalitySide_spec hl) fun l x hx hl => ?_
  refine .bind (equalitySide_spec (Site.holds hx hr)) fun r y hy hr => ?_
  exact compareSides_spec (Site.has hy hl) hr

theorem compare_spec (hl : w.Holds lhs) (hr : w.Holds rhs) :
    Spec env w (compare op lhs rhs span) fun v x => x.Holds v := by
  unfold compare
  dsimp only
  split
  · split
    · exact compareNullable_spec hl hr
    · exact .unsupported
  · exact comparePlain_spec hl hr

/-! ## Operators on nodes -/

theorem strictBinary_spec {resultType : StaticType} (hl : w.Holds lhs) (hr : w.Holds rhs) :
    Spec env w (strictBinary op lhs rhs resultType span) fun v x => x.Holds v := by
  cases op with
  | add | sub | mul | div | rem => exact arithmetic_spec hl hr
  | exp => exact power_spec hl hr
  | bitAnd | bitOr | bitXor | shl | shr | ushr => exact bitwise_spec hl hr
  | eq | notEq | strictEq | strictNotEq | lt | ltEq | gt | gtEq => exact compare_spec hl hr
  | and | or => exact .internal

theorem logicalOperand_spec {n : Node} (hn : Yields env generate n) :
    Spec env w (logicalOperand generate op n span) fun v x => x.Has v := by
  refine .bind (hn w) fun v x _ hv => ?_
  split
  · exact operand_spec hv
  · exact .unsupported

/-- How the block ends that the left operand of a logical operator is in. -/
def logicalTest (op : BinaryOp) (lhs : ValueId) (side merge : BlockId) : Terminator :=
  if op = .and then .condBr lhs side merge else .condBr lhs merge side

/-- A logical operator from where its left operand is known. -/
def logicalBranch (generate : Generate) (op : BinaryOp) (lhs : ValueId) (lhsBlock : BlockId)
    (right : Node) (span : Span) : Gen Value := do
  let rhsBlock ← appendBlock "logic.rhs"
  let merge ← appendBlock "logic.end"
  terminate (logicalTest op lhs rhsBlock merge)
  positionAt rhsBlock
  let rhs ← logicalOperand generate op right span
  let rhsEnd ← currentBlock
  terminate (.br merge)
  positionAt merge
  return .rvalue (← emit (.phi .i1 [(lhs, lhsBlock), (rhs, rhsEnd)])) .boolean

theorem shortCircuit_eq (op : BinaryOp) (left right : Node) :
    shortCircuit generate op left right span = (do
      let lhs ← logicalOperand generate op left span
      let lhsBlock ← currentBlock
      logicalBranch generate op lhs lhsBlock right span) := by
  unfold shortCircuit logicalBranch logicalTest
  split <;> rfl

theorem logicalBranch_spec {right : Node} {x : Site} {lhs : ValueId} (hlhs : x.Has lhs)
    (hr : Yields env generate right) :
    Spec env x (logicalBranch generate op lhs x.block right span) fun v z =>
      ∃ r, v = .rvalue r .boolean ∧ z.Has r ∧
        SideBranch env (logicalOperand generate op right span) (logicalTest op lhs) lhs x z r := by
  refine sideBranch_spec ("logic.rhs", "logic.end") .i1 ?_ ?_ hlhs hlhs
    (fun y _ => logicalOperand_spec hr) fun r z hz hside => .pure ⟨r, rfl, hz, hside⟩
  · intro side merge
    unfold logicalTest
    split <;> rfl
  · intro side merge b
    unfold logicalTest
    split <;> simp [Terminator.successors, or_comm]

theorem shortCircuit_spec {left right : Node} (hl : Yields env generate left)
    (hr : Yields env generate right) :
    Spec env w (shortCircuit generate op left right span) fun v x => x.Holds v := by
  rw [shortCircuit_eq]
  refine .bind (logicalOperand_spec hl) fun lhs x _ hlhs => .read rfl ?_
  refine (logicalBranch_spec hlhs hr).mono ?_
  rintro v z - ⟨r, rfl, hz, -⟩
  simpa using hz

theorem wrongForm_spec {α : Type} {kind : SyntaxKind} {n : Node} {Q : α → Site → Prop} :
    Spec env w (wrongForm kind n) Q := .internal

variable {n : Node}

theorem paren_spec (h : ∀ inner, n.form = .paren inner → Yields env generate inner) :
    Spec env w (paren generate n) fun v x => x.Holds v := by
  unfold paren
  split
  · next inner hn => exact h inner hn w
  · exact wrongForm_spec

theorem binary_spec (h : ∀ op left right, n.form = .binary op left right →
    Yields env generate left ∧ Yields env generate right) :
    Spec env w (binary generate n) fun v x => x.Holds v := by
  unfold binary
  split
  · next op left right hn =>
    obtain ⟨hl, hr⟩ := h op left right hn
    refine .read rfl ?_
    split
    · exact .bind (shortCircuit_spec hl hr) fun v x _ hv => castImplicit_spec hv
    · refine .bind (hl w) fun lhs x _ hlhs => .bind (hr x) fun rhs y hy hrhs => ?_
      exact .bind (strictBinary_spec (Site.holds hy hlhs) hrhs) fun v z _ hv => castImplicit_spec hv
  · exact wrongForm_spec

theorem unaryOperand_spec {op : UnaryOp} {v : Value} (hv : w.Holds v) :
    Spec env w (unaryOperand op v span) fun r x => x.Has r := by
  unfold unaryOperand
  split
  · refine .bind (operand_spec hv) fun a x _ ha => .bind emitI32_spec fun z y hy hz => ?_
    exact emitBinary_spec hz (Site.has hy ha)
  · exact .bind (operand_spec hv) fun a x _ ha => emit_spec (by simpa using ha)
  · exact operand_spec hv
  · exact operand_spec hv
  · refine .bind (operand_spec hv) fun a x _ ha => .bind emitBool_spec fun z y hy hz => ?_
    exact emitBinary_spec (Site.has hy ha) hz
  · refine .bind (operand_spec hv) fun a x _ ha => .bind emitI32_spec fun z y hy hz => ?_
    exact emitBinary_spec (Site.has hy ha) hz
  · exact .unsupported

theorem unary_spec (h : ∀ op inner, n.form = .unary op inner → Yields env generate inner) :
    Spec env w (unary generate n) fun v x => x.Holds v := by
  unfold unary
  split
  · next op inner hn =>
    refine .bind (h op inner hn w) fun v x _ hv => ?_
    refine .bind (unaryOperand_spec hv) fun a y _ ha => .read rfl ?_
    exact castImplicit_spec (by simpa using ha)
  · exact wrongForm_spec

theorem update_spec (h : ∀ op before target, n.form = .update op before target →
    Yields env generate target) : Spec env w (update generate n) fun v x => x.Holds v := by
  unfold update
  split
  · next op before target hn =>
    refine .bind (h op before target hn w) fun v x _ hv => ?_
    split
    · next a =>
      split
      · exact .unsupported
      · refine .bind (load_spec hv) fun old y₁ h₁ hold => ?_
        refine .bind emitConst_spec fun one y₂ h₂ hone => ?_
        refine .bind (emitBinary_spec (Site.has h₂ hold) hone) fun new y₃ h₃ hnew => ?_
        refine .bind (store_spec (Site.holds (h₁.trans (h₂.trans h₃)) hv) hnew)
          fun _ y₄ h₄ _ => .pure ?_
        rw [World.holds_rvalue]
        split
        · exact Site.has h₄ hnew
        · exact Site.has (h₂.trans (h₃.trans h₄)) hold
    · exact .internal
  · exact wrongForm_spec

theorem assignment_spec (h : ∀ op target value, n.form = .assign op target value →
    Yields env generate target ∧ Yields env generate value) :
    Spec env w (assignment generate n) fun v x => x.Holds v := by
  unfold assignment
  split
  · next op target value hn =>
    obtain ⟨ht, hvalue⟩ := h op target value hn
    refine .bind (ht w) fun v x _ hv => ?_
    split
    · next a =>
      split
      · exact .bind (hvalue x) fun r y hy hr => assign_spec (Site.holds hy hv) hr
      · split
        · exact .unsupported
        · refine .bind (load_spec hv) fun old y₁ h₁ hold => ?_
          refine .bind (hvalue y₁) fun r y₂ h₂ hr => ?_
          refine .bind (strictBinary_spec (by simpa using Site.has h₂ hold) hr)
            fun result y₃ h₃ hresult => ?_
          exact assign_spec (Site.holds (h₁.trans (h₂.trans h₃)) hv) hresult
    · exact .internal
  · exact wrongForm_spec

theorem cast_spec (h : ∀ inner, n.form = .cast inner → Yields env generate inner) :
    Spec env w (cast generate n) fun v x => x.Holds v := by
  unfold cast
  split
  · next inner hn =>
    exact .bind (h inner hn w) fun v x _ hv => .read rfl (castExplicit_spec hv)
  · exact wrongForm_spec

/-! ## The conditional operator -/

theorem conditionalArm_spec {t : StaticType} (hn : Yields env generate n) :
    Spec env w (conditionalArm generate n t span) fun v x => ∀ a, v = some a → x.Has a := by
  refine .bind (hn w) fun v x _ hv => ?_
  split
  · exact .pure (by simp)
  · exact .bind (castOperand_spec hv) fun a y _ ha => .pure (by simpa using ha)

/-- A conditional from where its test is known. -/
def conditionalBranch (generate : Generate) (c : ValueId) (thenExpr elseExpr : Node)
    (t : StaticType) (span : Span) : Gen Value := do
  let thenBlock ← appendBlock "cond.then"
  let elseBlock ← appendBlock "cond.else"
  let merge ← appendBlock "cond.end"
  terminate (.condBr c thenBlock elseBlock)
  positionAt thenBlock
  let thenValue ← conditionalArm generate thenExpr t span
  let thenEnd ← currentBlock
  terminate (.br merge)
  positionAt elseBlock
  let elseValue ← conditionalArm generate elseExpr t span
  let elseEnd ← currentBlock
  terminate (.br merge)
  positionAt merge
  match thenValue, elseValue with
  | some a, some b =>
    let lowered ← layout t span
    valueOf (← emit (.phi lowered [(a, thenEnd), (b, elseEnd)])) t span
  | _, _ => return .unit

theorem conditional_eq {cond thenExpr elseExpr : Node}
    (hn : n.form = .conditional cond thenExpr elseExpr) : conditional generate n = (do
      let t ← nodeType n
      let c ← condition generate cond
      conditionalBranch generate c thenExpr elseExpr t n.span) := by
  unfold conditional
  rw [hn]
  rfl

/-- From `x` control goes to one of two arms and from there to `z₀`, where a phi takes the result of
the arm that was gone through. -/
def Conditional (env : Env) (first second : Gen (Option ValueId)) (c : ValueId) (t : StaticType)
    (span : Span) (x z : Site) (v : Value) : Prop :=
  ∃ (y₁ y₁' y₂ y₂' z₀ : Site) (r₁ r₂ : Option ValueId), x.toWorld ≤ y₁.toWorld ∧
    x.toWorld ≤ y₂.toWorld ∧ x.toWorld ≤ z₀.toWorld ∧
    x.toWorld.ClosedIn z.fn (.condBr c y₁.block y₂.block) ∧
    Arm env z.fn z₀.block first y₁ y₁' r₁ ∧ Arm env z.fn z₀.block second y₂ y₂' r₂ ∧
    z₀.toWorld.HeadIn z.fn ∧ ∀ a b, r₁ = some a → r₂ = some b → ∃ (z₁ : Site) (r : ValueId),
      z₀.toWorld.Joins z₁.toWorld r [(a, y₁'.block), (b, y₂'.block)] ∧ z₁ ≤ z ∧
      valueOf r t span env z₁.state = .ok v z.state

theorem conditionalBranch_spec {thenExpr elseExpr : Node} {t : StaticType} {c : ValueId} {x : Site}
    (hc : x.Has c) (hthen : Yields env generate thenExpr) (helse : Yields env generate elseExpr) :
    Spec env x (conditionalBranch generate c thenExpr elseExpr t span) fun v z =>
      z.Holds v ∧ Conditional env (conditionalArm generate thenExpr t span)
        (conditionalArm generate elseExpr t span) c t span x z v := by
  refine .of_onward ?_
  refine .bind_block (le_refl _) rfl fun thenBlock y₁ hy₁ hb₁ hl₁ hthenB _ _ => ?_
  refine .bind_block hy₁ hl₁ fun elseBlock y₂ hy₂ hb₂ hl₂ helseB hnewE _ => ?_
  refine .bind_block (hy₁.trans hy₂) hl₂ fun merge y₃ hy₃ hb₃ hl₃ hmerge hnewM hfrom => ?_
  have hxy₃ : x ≤ y₃ := hy₁.trans (hy₂.trans hy₃)
  have hstays := hb₁.trans (hb₂.trans hb₃)
  have hne₁ := hthenB.ne_of_added hnewE
  have hne₂ := (hthenB.later hy₂.1).ne_of_added hnewM
  have hne₃ := helseB.ne_of_added hnewM
  have hthenB := (hthenB.later hy₂.1).later hy₃.1
  have helseB := helseB.later hy₃.1
  refine .bind (terminate_onward hxy₃ ?_ ?_) fun _ y₄ hy₄ hend => ?_
  · simpa [Terminator.uses] using Site.has hxy₃ hc
  · simpa [Terminator.successors] using ⟨.inl hthenB.toLanding, .inl helseB.toLanding⟩
  have hfrom := hfrom.ends_past hend (by simp [Terminator.successors, hne₂, hne₃])
  refine .bind_position hy₄ (hthenB.ends hend) fun y₅ hy₅ hmove => ?_
  have helseB := (helseB.ends hend).moves hmove hne₁
  have hmerge := (hmerge.ends hend).moves hmove hne₂
  have hfrom := hfrom.moves hmove
  have htest := (hend.closedIn.completed hmove.completes).stays hstays (Site.later hxy₃).completes
  have hhead := (hthenB.ends hend).headIn hmove
  -- the first arm
  refine .bind_site hy₅ (conditionalArm_spec hthen).track fun a y₆ hy₆ ha => .read rfl ?_
  obtain ⟨ha, hrun⟩ := ha
  have hfrom := hfrom.later hy₅ hmerge.toLanding hy₆.1
  have helseB := helseB.later hy₆.1
  have hmerge := hmerge.later hy₆.1
  have hxy₆ : x.toWorld ≤ y₆.toWorld := hy₅.trans hy₆
  refine .bind (terminate_onward hxy₆ (by simp [Terminator.uses]) ?_) fun _ y₇ hy₇ hend' => ?_
  · simpa [Terminator.successors] using .inl hmerge.toLanding
  have hfrom := hfrom.ends_at hend' (by simp [Terminator.successors])
  refine .bind_position hy₇ (helseB.ends hend') fun y₈ hy₈ hmove' => ?_
  have hmerge := (hmerge.ends hend').moves hmove' hne₃
  have hfrom := hfrom.moves hmove'
  have hback := hend'.closedIn.completed hmove'.completes
  have hhead' := (helseB.ends hend').headIn hmove'
  -- the second arm
  refine .bind_site hy₈ (conditionalArm_spec helse).track fun b y₉ hy₉ hb => .read rfl ?_
  obtain ⟨hb, hrun'⟩ := hb
  have hfrom := hfrom.later hy₈ hmerge.toLanding hy₉.1
  have hxy₉ : x.toWorld ≤ y₉.toWorld := hy₈.trans hy₉
  have hin₆ : y₈.fn.HasBlock y₆.block := hmove'.hasBlock (hend'.hasBlock y₆.inBlock)
  have hdiff : y₆.block ≠ y₉.block := by
    rcases hy₉.1.apart with he | hn
    · rw [he, hmove'.block]
      exact helseB.ne.symm
    · intro he
      exact hn (he ▸ hin₆)
  refine .bind_meet hxy₉ (hmerge.later hy₉.1) hfrom fun z hz hblock hfrom hknown hback' hmeet => ?_
  -- all that has been generated so far is in what follows
  have shape {F : Function} (hF : F.Completes z.fn) : x.toWorld.ClosedIn F
      (.condBr c y₅.block y₈.block) ∧
      Arm env F z.block (conditionalArm generate thenExpr t span) y₅ y₆ a ∧
      Arm env F z.block (conditionalArm generate elseExpr t span) y₈ y₉ b ∧
      z.toWorld.HeadIn F := by
    have h₈ : F.Completes y₈.fn := hF.trans (hback'.completes.trans (Site.later hy₉).completes)
    have h₅ : F.Completes y₅.fn := h₈.trans (hback.completes.trans (Site.later hy₆).completes)
    rw [hblock, hmove.block, hmove'.block]
    exact ⟨htest.completed h₅, ⟨hhead.completed h₅, hrun, hback.completed h₈⟩,
      ⟨hhead'.completed h₈, hrun', hback'.completed hF⟩, hmeet.completed hF⟩
  split
  · next a b =>
    refine .bind_except fun lowered _ => .bind (phi_onward hz ?_ ?_ ?_ ?_) ?_
    · rw [hblock]
      exact hmerge.isNew
    · simp only [List.mem_cons, List.not_mem_nil, or_false, forall_eq_or_imp, forall_eq]
      have ha := hmove'.known (hend'.known (ha a rfl))
      exact ⟨hknown _ _ (hy₉.1.known hin₆ ha), hknown _ _ (hb b rfl)⟩
    · simpa using hdiff
    · rw [hblock]
      exact hfrom
    · rintro r _ hy ⟨z₁, rfl, hr, hjoin⟩
      refine .end_site hy ((valueOf_spec hr).track.mono ?_)
      rintro v z₂ hz₂ ⟨hv, hvalue⟩
      obtain ⟨htest, hfirst, hsecond, hmeet⟩ :=
        shape ((Site.later hz₂).completes.trans hjoin.completes)
      refine ⟨hv, y₅, y₆, y₈, y₉, z, some a, some b, hy₅, hy₈, hz, htest, hfirst, hsecond, hmeet, ?_⟩
      rintro _ _ ⟨⟩ ⟨⟩
      exact ⟨z₁, r, hjoin, hz₂, hvalue⟩
  · next hnone =>
    obtain ⟨htest, hfirst, hsecond, hmeet⟩ := shape z.completes_refl
    refine .pure hz ⟨z, rfl, by simp, y₅, y₆, y₈, y₉, z, a, b, hy₅, hy₈, hz, htest, hfirst, hsecond,
      hmeet, ?_⟩
    intro a' b' ha hb
    exact (hnone a' b' ha hb).elim

theorem conditional_spec (h : ∀ cond thenExpr elseExpr,
    n.form = .conditional cond thenExpr elseExpr → Yields env generate cond ∧
      Yields env generate thenExpr ∧ Yields env generate elseExpr) :
    Spec env w (conditional generate n) fun v x => x.Holds v := by
  cases hn : n.form with
  | conditional cond thenExpr elseExpr =>
    obtain ⟨hcond, hthen, helse⟩ := h cond thenExpr elseExpr hn
    rw [conditional_eq hn]
    refine .read rfl (.bind (condition_spec hcond) fun c x _ hc => ?_)
    exact (conditionalBranch_spec hc hthen helse).mono fun _ _ _ hv => hv.1
  | _ =>
    unfold conditional
    rw [hn]
    exact wrongForm_spec

end Gen

end TypedLowering
