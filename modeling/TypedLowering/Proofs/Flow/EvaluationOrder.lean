import TypedLowering.Proofs.Flow.Validity

/-!
The order in which the operands of a binary operator are evaluated. The left operand of an operator
that evaluates both is a place if it is a variable, a field or an element; a place is read only
after the code of the right operand, and so after the effects of that code. A compound assignment
reads its target first.
-/
namespace TypedLowering
set_option autoImplicit false
open Ssa Ssa.Function

/-! ## Reads and effects -/

/-- Instructions that change memory or may do so. -/
def Ssa.Op.isEffect : Op → Bool
  | .store _ _ | .call _ _ _ => true
  | _ => false

/-- Instructions that read memory: loads, and the calls that read an array element. -/
def Ssa.Op.isRead : Op → Bool
  | .load _ | .call _ _ _ => true
  | _ => false

/-- The value is a place, which is read only when it is needed. -/
def Value.isPlace : Value → Bool
  | .assignable _ => true
  | _ => false

namespace World

/-- An effect among the instructions emitted between `x` and `y`. -/
def EmitsEffect (x y : World) (i : ValueId) : Prop :=
  x.fn.values.size ≤ i.index ∧ i.index < y.fn.values.size ∧
    ∃ d, y.fn.definition? i = some d ∧ d.op.isEffect = true

/-- The value is what an instruction read from memory. -/
def IsRead (x : World) (v : ValueId) : Prop := ∃ d, x.fn.definition? v = some d ∧ d.op.isRead = true

end World

namespace Gen

variable {env : Env} {w : Site} {span : Span}

/-! ## Reading a place -/

theorem emit_defines {d : Definition} (hd : w.Reads d) : Spec env w (emit d) fun v x =>
    w.fn.values.size ≤ v.index ∧ x.fn.definition? v = some d := by
  refine (emit_appends hd).mono fun v x _ h => ?_
  obtain ⟨-, rfl, hfn, -⟩ := h
  rw [hfn]
  exact ⟨Nat.le_refl _, definition?_append_next _ _ _⟩

theorem callSupport_reads {f : SupportFunction} {args : List ValueId} (h : ∀ u ∈ args, w.Has u) :
    Spec env w (callSupport f args span) fun v x =>
      w.fn.values.size ≤ v.index ∧ x.IsRead v := by
  refine .bind declareExternal_outside.outside fun callee x hx _ => ?_
  have call {y : Site} (hy : x ≤ y) : Spec env y (emit (.call callee f.ret args .none)) fun v z =>
      w.fn.values.size ≤ v.index ∧ z.IsRead v := by
    refine (emit_defines ?_).mono fun v z _ hv => ⟨?_, _, hv.2, rfl⟩
    · simpa using fun u hu => Site.has (hx.trans hy) (h u hu)
    · exact Nat.le_trans (Site.size_values (hx.trans hy)) hv.1
  split
  · refine .bind (modifyUnit_outside (w := ⟨x.state⟩) ?_).outside fun _ y hy _ => call hy
    exact ⟨fun _ => id, fun _ => .inl⟩
  · exact call (le_refl x)

/-- Reading a place takes an instruction that is emitted now. -/
theorem load_reads {a : Assignable} (ha : w.Holds (.assignable a)) :
    Spec env w (load a span) fun v x => w.fn.values.size ≤ v.index ∧ x.IsRead v := by
  have loaded {x : Site} {t : Ty} {p : ValueId} (hx : w ≤ x) (hp : x.Has p) :
      Spec env x (emit (.load t p)) fun v y => w.fn.values.size ≤ v.index ∧ y.IsRead v := by
    refine (emit_defines (by simpa using hp)).mono fun v y _ hv => ⟨?_, _, hv.2, rfl⟩
    exact Nat.le_trans (Site.size_values hx) hv.1
  unfold load
  have h := World.holds_assignable.mp ha
  cases hp : a.place with
  | slot ptr lowered =>
    rw [hp] at h
    exact loaded (le_refl w) (by simpa [Place.operands] using h)
  | field object struct index lowered =>
    rw [hp] at h
    exact .bind (emit_spec (by simpa [Place.operands] using h)) fun ptr x hx hptr => loaded hx hptr
  | element array index l =>
    rw [hp] at h
    simp only [Place.operands, List.mem_cons, List.not_mem_nil, or_false, forall_eq_or_imp,
      forall_eq] at h
    refine .read rfl ?_
    split
    · exact callSupport_reads (by simp [h.1, h.2])
    · exact .bind (elementAddress_spec h.1 h.2) fun ptr x hx hptr => loaded hx hptr

/-- The operand of a value that is no place was there before, unless it is a constant. -/
theorem operand_of_not_place {x : Site} {v : Value} (hv : w.Holds v) (hp : v.isPlace = false) :
    Spec env x (operand v span) fun l y => l.index < w.fn.values.size ∨ ¬ y.IsRead l := by
  cases v with
  | unit => exact .internal
  | rvalue l t => exact .pure (.inl (w.flow.index_lt_of_known (World.holds_rvalue.mp hv)))
  | assignable a => cases hp
  | object o =>
    show Spec env x (objectOperand o) _
    unfold objectOperand
    split
    · next l hl => exact .pure (.inl (w.flow.index_lt_of_known (World.holds_object.mp hv l hl)))
    · refine (emit_defines (d := .const .null) (by simp)).mono fun l y _ hl => .inr ?_
      rintro ⟨d, hd, hr⟩
      cases hl.2.symm.trans hd
      cases hr

/-- Where the left operand is read after the right one has been generated: the read comes before
all effects of the right operand exactly if there is nothing to read or there are no effects. -/
theorem read_first_iff {x y z : Site} {lhs : Value} {l : ValueId} (hl : x.Holds lhs)
    (hxy : x ≤ y) (h : operand lhs span env y.state = .ok l z.state) :
    (∀ i, x.EmitsEffect y.toWorld i → ¬ (i.index < l.index ∧ z.IsRead l)) ↔
      lhs.isPlace = false ∨ ∀ i, ¬ x.EmitsEffect y.toWorld i := by
  cases hp : lhs.isPlace with
  | false =>
    refine ⟨fun _ => .inl rfl, fun _ i hi hlt => ?_⟩
    obtain ⟨z', hz', -, hq⟩ := operand_of_not_place hl hp l z.state h
    rcases hq with hq | hq
    · have := hi.1
      omega
    · unfold World.IsRead at hq hlt
      rw [World.fn_eq_of_state hz'] at hq
      exact hq hlt.2
  | true =>
    cases lhs with
    | unit => cases hp
    | rvalue x t => cases hp
    | object o => cases hp
    | assignable a =>
      obtain ⟨z', hz', -, hsize, hread⟩ := load_reads (Site.holds hxy hl) l z.state h
      unfold World.IsRead at hread
      rw [World.fn_eq_of_state hz'] at hread
      constructor
      · intro hfirst
        exact .inr fun i hi => hfirst i hi ⟨Nat.lt_of_lt_of_le hi.2.1 hsize, hread⟩
      · rintro (hf | hnone) i hi
        · cases hf
        · exact (hnone i hi).elim

/-! ## The operators read the left operand first -/

/-- The first step of a computation from `w` is to take the operand of `v`; it ends in a later
world with `Q`. -/
def TakesFirst {α : Type} (env : Env) (w : Site) (v : Value) (span : Span) (m : Gen α)
    (Q : α → Site → Prop) : Prop :=
  ∀ a s, m env w.state = .ok a s → ∃ (l : ValueId) (y z : Site),
    operand v span env w.state = .ok l y.state ∧ w ≤ y ∧ y ≤ z ∧ z.state = s ∧ Q a z

namespace TakesFirst

variable {α β : Type} {v : Value} {Q : α → Site → Prop}

theorem operand_bind {f : ValueId → Gen α} (hv : w.Holds v)
    (hf : ∀ l (y : Site), w ≤ y → y.Has l → Spec env y (f l) Q) :
    TakesFirst env w v span (operand v span >>= f) Q := by
  intro a s h
  obtain ⟨l, s₁, h₁, h⟩ := bind_ok h
  obtain ⟨y, rfl, hy, hl⟩ := operand_spec hv l s₁ h₁
  obtain ⟨z, hz, hyz, hq⟩ := hf l y hy hl a s h
  exact ⟨l, y, z, h₁, hy, hyz, hz, hq⟩

theorem of_failure {m : Gen α} (hm : ∀ a s, m env w.state ≠ .ok a s) :
    TakesFirst env w v span m Q :=
  fun a s h => (hm a s h).elim

/-- A step before that changes nothing does not count. -/
theorem after {m : Gen β} {f : β → Gen α} (hm : ∀ b s, m env w.state = .ok b s → s = w.state)
    (hf : ∀ b, TakesFirst env w v span (f b) Q) : TakesFirst env w v span (m >>= f) Q := by
  intro a s h
  obtain ⟨b, s₁, h₁, h⟩ := bind_ok h
  obtain rfl := hm b s₁ h₁
  exact hf b a s h

theorem boxValue_bind {f : Value → Gen α} {target : StaticType} (hv : w.Holds v)
    (hf : ∀ r (y : Site), w ≤ y → y.Holds r → Spec env y (f r) Q) :
    TakesFirst env w v span (boxValue v target span >>= f) Q := by
  unfold boxValue
  rw [bind_assoc]
  refine after (fun _ _ h => (ofExcept_ok h).2) fun inner => ?_
  rw [bind_assoc]
  refine operand_bind hv fun l y hy hl => ?_
  refine .bind (Q := fun r z => z.Holds r) ?_ fun r z hz hr => hf r z (hy.trans hz) hr
  have cell {t : Ty} : Spec env y (do
      return Value.rvalue (← callSupport (.box t) [l] span) target) fun r z => z.Holds r :=
    .bind (callSupport_spec (by simpa using hl)) fun b z _ hb => .pure (by simpa using hb)
  cases inner with
  | ptr => exact .pure (by simpa using hl)
  | i1 => exact cell
  | i32 => exact cell
  | f64 => exact cell
  | i64 => exact .unsupported
  | void => exact .unsupported

theorem convertFrom_bind {f : Value → Gen α} {target : StaticType} {toInner : Gen Value}
    (hv : w.Holds v) (hf : ∀ r (y : Site), w ≤ y → y.Holds r → Spec env y (f r) Q)
    (hi : TakesFirst env w v span (toInner >>= fun r => boxValue r target span >>= f) Q) :
    TakesFirst env w v span (convertFrom false v span toInner target >>= f) Q := by
  have reject {t t' : StaticType} :
      TakesFirst env w v span (noConversion false t t' span >>= f) Q := by
    refine of_failure fun a s h => ?_
    obtain ⟨_, _, h₁, _⟩ := bind_ok h
    exact unsupported_ok h₁
  unfold convertFrom
  split
  · rw [bind_assoc]
    refine operand_bind hv fun l y hy hl => ?_
    refine .bind (Q := fun r z => z.Holds r) ?_ fun r z hz hr => hf r z (hy.trans hz) hr
    exact .bind (emit_spec (by simpa using hl)) fun b z _ hb => .pure (by simpa using hb)
  · exact reject
  · exact reject
  · exact reject
  · exact reject
  · rw [bind_assoc]
    exact hi
  · exact reject

/-- An implicit conversion takes the operand first, or is none at all. -/
theorem castImplicit_bind {f : Value → Gen α} {target : StaticType} (hv : w.Holds v)
    (hf : ∀ r (y : Site), w ≤ y → y.Holds r → Spec env y (f r) Q)
    (hsame : TakesFirst env w v span (f v) Q) :
    TakesFirst env w v span (castImplicit v target span >>= f) Q := by
  unfold castImplicit
  induction target generalizing f with
  | nullable inner ih =>
    unfold convert
    split
    · exact hsame
    · refine convertFrom_bind hv hf (ih (fun r y hy hr => ?_) (boxValue_bind hv hf))
      exact .bind (boxValue_spec hr) fun r' z hz hr' => hf r' z (hy.trans hz) hr'
  | _ =>
    unfold convert
    split
    · exact hsame
    · exact convertFrom_bind hv hf (boxValue_bind hv hf)

theorem castOperand_bind {f : ValueId → Gen α} {target : StaticType} (hv : w.Holds v)
    (hf : ∀ l (y : Site), w ≤ y → y.Has l → Spec env y (f l) Q) :
    TakesFirst env w v span (castOperand v target span >>= f) Q := by
  unfold castOperand
  rw [bind_assoc]
  refine castImplicit_bind hv (fun r y hy hr => ?_) (operand_bind hv hf)
  exact .bind (operand_spec hr) fun l z hz hl => hf l z (hy.trans hz) hl

variable {op : BinaryOp} {lhs rhs : Value}

theorem of_requireArithmetic {f : Unit → Gen α} (hf : TakesFirst env w lhs span (f ()) Q) :
    TakesFirst env w lhs span (requireArithmetic op v span >>= f) Q := by
  unfold requireArithmetic
  split
  · exact hf
  · exact hf
  · refine of_failure fun a s h => ?_
    obtain ⟨_, _, h₁, _⟩ := bind_ok h
    exact unsupported_ok h₁

theorem of_requireInteger {f : Unit → Gen α} (hf : TakesFirst env w lhs span (f ()) Q) :
    TakesFirst env w lhs span (requireInteger op v span >>= f) Q := by
  unfold requireInteger
  split
  · exact hf
  · refine of_failure fun a s h => ?_
    obtain ⟨_, _, h₁, _⟩ := bind_ok h
    exact unsupported_ok h₁

variable (hl : w.Holds lhs) (hr : w.Holds rhs)

include hl hr

/-- Two operands of a type, the left one first. -/
theorem castOperands {t : StaticType} {f : ValueId → ValueId → Gen α}
    (hf : ∀ l r (y : Site), y.Has l → y.Has r → Spec env y (f l r) Q) :
    TakesFirst env w lhs span (do f (← castOperand lhs t span) (← castOperand rhs t span)) Q := by
  refine castOperand_bind hl fun l y hy hl => ?_
  exact .bind (castOperand_spec (Site.holds hy hr)) fun r z hz hr => hf l r z (Site.has hz hl) hr

theorem operands {f : ValueId → ValueId → Gen α}
    (hf : ∀ l r (y : Site), y.Has l → y.Has r → Spec env y (f l r) Q) :
    TakesFirst env w lhs span (do f (← operand lhs span) (← operand rhs span)) Q := by
  refine operand_bind hl fun l y hy hl => ?_
  exact .bind (operand_spec (Site.holds hy hr)) fun r z hz hr => hf l r z (Site.has hz hl) hr

theorem arithmetic {t : StaticType} :
    TakesFirst env w lhs span (Gen.arithmetic op lhs rhs t span) fun v z => z.Holds v := by
  refine of_requireArithmetic (of_requireArithmetic ?_)
  have compute {t : StaticType} {inst : BinOp} : TakesFirst env w lhs span (do
      let l ← castOperand lhs t span
      let r ← castOperand rhs t span
      return Value.rvalue (← emitBinary inst l r) t) fun v z => z.Holds v :=
    castOperands hl hr fun l r y hl hr =>
      .bind (emitBinary_spec hl hr) fun _ _ _ hv => .pure (by simpa using hv)
  split
  · exact compute
  · exact compute
  · refine of_failure fun a s h => ?_
    obtain ⟨_, _, h₁, _⟩ := bind_ok h
    exact unsupported_ok h₁

theorem power :
    TakesFirst env w lhs span (Gen.power op lhs rhs span) fun v z => z.Holds v := by
  refine of_requireArithmetic (of_requireArithmetic ?_)
  exact castOperands hl hr fun l r y hl hr =>
    .bind (emitPower_spec hl hr) fun _ _ _ hv => .pure (by simpa using hv)

theorem bitwise :
    TakesFirst env w lhs span (Gen.bitwise op lhs rhs span) fun v z => z.Holds v := by
  refine of_requireInteger (of_requireInteger ?_)
  refine operands hl hr fun l r y hl hr => ?_
  split
  · exact .bind (emitBinary_spec hl hr) fun _ _ _ hv => .pure (by simpa using hv)
  · exact .bind (emitBinary_spec hl hr) fun _ _ _ hv => .pure (by simpa using hv)
  · exact .bind (emitBinary_spec hl hr) fun _ _ _ hv => .pure (by simpa using hv)
  · exact .bind (shift_spec hl hr) fun _ _ _ hv => .pure (by simpa using hv)
  · exact .bind (shift_spec hl hr) fun _ _ _ hv => .pure (by simpa using hv)
  · exact .bind (shift_spec hl hr) fun _ _ _ hv => .pure (by simpa using hv)

theorem compareWords :
    TakesFirst env w lhs span (Gen.compareWords op lhs rhs span) fun v z => z.Holds v :=
  operands hl hr fun _ _ _ hl hr =>
    .bind (emit_spec (by simp [hl, hr])) fun _ _ _ hv => .pure (by simpa using hv)

theorem comparePlain :
    TakesFirst env w lhs span (Gen.comparePlain op lhs rhs span) fun v z => z.Holds v := by
  have floats : TakesFirst env w lhs span (do
      let l ← castOperand lhs .number span
      let r ← castOperand rhs .number span
      return Value.rvalue (← emit (.fcmp (floatPredicate op) l r)) .boolean)
      fun v z => z.Holds v :=
    castOperands hl hr fun l r y hl hr =>
      .bind (emit_spec (by simp [hl, hr])) fun _ _ _ hv => .pure (by simpa using hv)
  have reject {t : String} : TakesFirst env w lhs span (unsupported op.symbol t span : Gen Value)
      fun v z => z.Holds v :=
    of_failure fun a s h => unsupported_ok h
  unfold Gen.comparePlain
  split
  · exact compareWords hl hr
  · split
    · exact compareWords hl hr
    · exact reject
  · exact floats
  · exact floats
  · exact floats
  · split
    · exact compareWords hl hr
    · exact reject
  · exact reject

theorem compareNullable {negated : Bool} : TakesFirst env w lhs span
    (Gen.compareNullable lhs rhs negated span) fun v z => z.Holds v := by
  rw [compareNullable_eq]
  unfold equalitySide
  rw [bind_assoc]
  refine operand_bind hl fun l y hy hl => ?_
  have rest {s : EqualitySide} (hs : y.Has s.operand) : Spec env y (do
      let r ← equalitySide rhs span
      compareSides s r negated span) fun v z => z.Holds v :=
    .bind (equalitySide_spec (Site.holds hy hr)) fun r z hz hr =>
      compareSides_spec (Site.has hz hs) hr
  split
  · exact rest hl
  · exact rest hl

theorem strictBinary {t : StaticType} : TakesFirst env w lhs span
    (Gen.strictBinary op lhs rhs t span) fun v z => z.Holds v := by
  cases op with
  | add | sub | mul | div | rem => exact arithmetic hl hr
  | exp => exact power hl hr
  | bitAnd | bitOr | bitXor | shl | shr | ushr => exact bitwise hl hr
  | eq | notEq | strictEq | strictNotEq | lt | ltEq | gt | gtEq =>
    show TakesFirst env w lhs span (Gen.compare _ lhs rhs span) _
    unfold Gen.compare
    dsimp only
    split
    · split
      · exact compareNullable hl hr
      · exact of_failure fun a s h => unsupported_ok h
    · exact comparePlain hl hr
  | and | or => exact of_failure fun a s h => internal_ok h

end TakesFirst

/-! ## Main statement -/

/-- For an operator that evaluates both operands, the read that supplies the value of the left one
comes before every store and call of the right one exactly if the left one is no place or the right
one has no effect. -/
theorem binary_reads_left_first_iff (hr : env.registry.IsDiagonal) (hp : env.program.Placed)
    {depth : Nat} {n left right : Node} {op : BinaryOp} (hn : Node.Placed .expression n)
    (hform : n.form = .binary op left right) (hop : ¬ (op = .and ∨ op = .or)) {v : Value}
    {s : GenState} (h : Gen.generate (depth + 1) n env w.state = .ok v s) :
    ∃ (x y z z' : Site) (lhs rhs : Value) (l : ValueId),
      (w ≤ x ∧ x ≤ y ∧ y ≤ z ∧ z ≤ z' ∧ z'.state = s) ∧
      Gen.generate depth left env w.state = .ok lhs x.state ∧
      Gen.generate depth right env x.state = .ok rhs y.state ∧
      operand lhs n.span env y.state = .ok l z.state ∧
      ((∀ i, x.EmitsEffect y.toWorld i → ¬ (i.index < l.index ∧ z.IsRead l)) ↔
        lhs.isPlace = false ∨ ∀ i, ¬ x.EmitsEffect y.toWorld i) := by
  have hg := generate_sound hr hp depth
  have h := generate_succ_ok hr h
  have hkind : n.kind = .binary := congrArg Form.kind hform
  rw [hkind] at h
  have h : Gen.binary (Gen.generate depth) n env w.state = .ok v s := h
  unfold Gen.binary at h
  rw [hform] at h
  obtain ⟨t, s₁, h₁, h⟩ := bind_ok h
  cases h₁
  simp only [if_neg hop] at h
  obtain ⟨lhs, s₂, h₂, h⟩ := bind_ok h
  obtain ⟨x, rfl, hx, hlhs⟩ := hg.expression (hn.part (by simp [hform, Form.parts])) w lhs s₂ h₂
  obtain ⟨rhs, s₃, h₃, h⟩ := bind_ok h
  obtain ⟨y, rfl, hy, hrhs⟩ := hg.expression (hn.part (by simp [hform, Form.parts])) x rhs s₃ h₃
  obtain ⟨u, s₄, h₄, h⟩ := bind_ok h
  obtain ⟨l, z, z₁, hl, hyz, hz₁, rfl, hu⟩ :=
    TakesFirst.strictBinary (Site.holds hy hlhs) hrhs u s₄ h₄
  obtain ⟨z', hz', hzz', -⟩ := castImplicit_spec hu v s h
  exact ⟨x, y, z, z', lhs, rhs, l, ⟨hx, hy, hyz, hz₁.trans hzz', hz'⟩, h₂, h₃, hl,
    read_first_iff hlhs hy hl⟩

/-! ## A store before the read -/

/-- The expression `x + (x = 2)` of integers. -/
def sumWithAssignment : Node :=
  let node (form : Form Node) : Node := .mk ⟨0⟩ .dummy .int form
  let x := node (.identifier "x")
  node (.binary .add x (node (.assign none x (node (.numericLiteral "2")))))

/-- An empty program, compiled with the standard generators. -/
def emptyEnv : Env := { program := {}, config := {}, registry := .standard }

/-- A module with one function from an integer to an integer, still without blocks. -/
def integerShell : Module := (Module.define { name := "" } "f" [.i32] .i32 .internal).2

/-- The unit in which that function has its entry block. -/
def integerUnit : UnitState :=
  { module := integerShell.modifyFunction ⟨0⟩ (Function.addBlock · "entry") }

theorem placed_sumWithAssignment : Node.Placed .expression sumWithAssignment := by
  have leaf (form : Form Node) (hk : form.kind.isExpression = true) (hp : form.parts = []) :
      Node.Placed .expression (.mk ⟨0⟩ .dummy .int form) :=
    .mk hk (by simp [Node.form, hp])
  refine .mk rfl fun q c hc => ?_
  rcases List.mem_cons.mp hc with h | h
  · cases h
    exact leaf _ rfl rfl
  · cases List.mem_singleton.mp h
    refine .mk rfl fun q c hc => ?_
    rcases List.mem_cons.mp hc with h | h
    · cases h
      exact leaf _ rfl rfl
    · cases List.mem_singleton.mp h
      exact leaf _ rfl rfl

/-- The state that a computation ends in. -/
def stateAfter {α : Type} (m : Gen α) (env : Env) (s : GenState) : GenState :=
  match m env s with
  | .ok _ s' | .error _ s' => s'

/-- The state in which the parameter of that function is bound to `x`. -/
def integerState : GenState :=
  stateAfter (bindLocal "x" (Function.param 0) .int .dummy) emptyEnv
    ⟨integerUnit, { Frame.outside with
      function := ⟨0⟩, block := entry, subst := .empty, returnType := .int }⟩

theorem placed_emptyEnv : emptyEnv.program.Placed where
  body := by
    intro f decl n h
    cases h
  default := by
    intro f decl q n h
    cases h

/-- In `x + (x = 2)` the store to `x` comes before the load of the left `x`. -/
theorem sumWithAssignment_reads_late : ∃ (x y z : Site) (lhs rhs : Value) (l i : ValueId),
    Gen.generate 2 (.mk ⟨0⟩ .dummy .int (.identifier "x")) emptyEnv integerState
      = .ok lhs x.state ∧
    Gen.generate 2 (.mk ⟨0⟩ .dummy .int (.assign none (.mk ⟨0⟩ .dummy .int (.identifier "x"))
      (.mk ⟨0⟩ .dummy .int (.numericLiteral "2")))) emptyEnv x.state = .ok rhs y.state ∧
    operand lhs .dummy emptyEnv y.state = .ok l z.state ∧
    x.EmitsEffect y.toWorld i ∧ i.index < l.index ∧ z.IsRead l := by
  obtain ⟨w₀, hw₀, hp⟩ := exists_start (m := integerShell) (u := integerUnit) rfl rfl .empty .int
  have hbind : bindLocal "x" (Function.param 0) .int .dummy emptyEnv w₀.state
      = .ok () integerState := by rw [hw₀]; rfl
  obtain ⟨w, hw, -⟩ := bindLocal_later (.inl (by rw [IsParam, hp]; decide)) hbind
  have hrun : Gen.generate 3 sumWithAssignment emptyEnv w.state = .ok (.rvalue ⟨6⟩ .int)
      (stateAfter (Gen.generate 3 sumWithAssignment) emptyEnv integerState) := by rw [hw]; rfl
  obtain ⟨x, y, z, z', lhs, rhs, l, -, hx, hy, hz, hiff⟩ := binary_reads_left_first_iff
    Registry.isDiagonal_standard placed_emptyEnv placed_sumWithAssignment rfl (by decide) hrun
  rw [hw] at hx
  have hleft : Gen.generate 2 (.mk ⟨0⟩ .dummy .int (.identifier "x")) emptyEnv integerState
      = .ok (.assignable ⟨.slot ⟨1⟩ .i32, .int⟩) integerState := rfl
  obtain ⟨rfl, hxs⟩ := EStateM.Result.ok.inj (hleft.symm.trans hx)
  have hright : ∃ s, Gen.generate 2 (.mk ⟨0⟩ .dummy .int (.assign none
      (.mk ⟨0⟩ .dummy .int (.identifier "x")) (.mk ⟨0⟩ .dummy .int (.numericLiteral "2"))))
      emptyEnv integerState = .ok (.rvalue ⟨3⟩ .int) s ∧
      ∃ f, s.unit.module.function? s.frame.function = some f ∧ f.values.size = 5 ∧
        f.definition? ⟨4⟩ = some (.store ⟨3⟩ ⟨1⟩) := ⟨_, rfl, _, rfl, rfl, rfl⟩
  obtain ⟨s, hs, f, hf, hsize, hstore⟩ := hright
  have hshared := hy
  rw [← hxs] at hshared
  obtain ⟨-, hys⟩ := EStateM.Result.ok.inj (hs.symm.trans hshared)
  have hxf : x.fn.values.size = 3 := by
    have hcur := x.current
    rw [← hxs] at hcur
    have hfn : ∃ f, integerState.unit.module.function? integerState.frame.function = some f ∧
        f.values.size = 3 := ⟨_, rfl, rfl⟩
    obtain ⟨f, hf, hsize⟩ := hfn
    rw [Option.some.inj (hcur.symm.trans hf), hsize]
  have hyf : y.fn = f := by
    have hcur := y.current
    rw [← hys] at hcur
    exact Option.some.inj (hcur.symm.trans hf)
  have heffect : x.EmitsEffect y.toWorld ⟨4⟩ :=
    ⟨by rw [hxf]; decide, by rw [hyf, hsize]; decide, _, by rw [hyf]; exact hstore, rfl⟩
  by_contra hnone
  rcases hiff.mp fun i hi hlt => hnone ⟨x, y, z, _, rhs, l, i, hx, hy, hz, hi, hlt⟩ with h | h
  · cases h
  · exact h _ heffect

end Gen

end TypedLowering
