import TypedLowering.Proofs.Flow.Operator
import TypedLowering.Proofs.Simulation.Control

/-!
The code of operators computes their values. Each instruction computes on words what the operator
computes, shifts by way of the masked count, and the two ways through a logical or conditional
operator meet in a phi that takes the value of the way control went.
-/
namespace TypedLowering
set_option autoImplicit false
open Ssa Ssa.Function

/-! ## Operators on words -/

theorem toNat_and_31 (y : BitVec 32) : (y &&& 31).toNat = y.toNat % 32 := by
  rw [BitVec.toNat_and]
  exact Nat.and_two_pow_sub_one_eq_mod y.toNat 5

theorem toNat_mod_lt (y : BitVec 32) : (y &&& 31).toNat < 32 := by
  rw [toNat_and_31]
  omega

namespace Gen

variable {env : Env} {w : Site} {facts : Facts} {span : Span}

/-! ## Instructions -/

/-- An instruction that computes a word. -/
theorem emit_performs {d : Definition} {c : Word} (hr : w.Offers facts → w.Reads d)
    (hp : ∀ (F : Function) (a : Activation) v, F.Ready a → F.Knows a facts →
      a.perform v d.op = some (a.define v (.word c))) :
    Performs env w facts (emit d) fun v => [(.rvalue v c.type, c)] := by
  intro ho v s h
  obtain ⟨x, rfl, hwx, hhas, rfl, hfn, hblock⟩ := emit_appends (hr ho) v s h
  refine ⟨x, rfl, hwx, by simpa [World.Offers, Value.type, Value.isSimple] using hhas, ?_⟩
  intro F hF a ha hk
  obtain ⟨rest, hrest, hdef, hbody⟩ := ha.next hfn hblock hF
  have hready : F.Ready { a with rest } := ha.toReady.congr rfl rfl
  have hperform := hp F { a with rest } w.fn.nextValue hready hk
  have hword : ∀ t, d.op ≠ .alloca t := by
    intro t ht
    rw [ht] at hperform
    have hreg := congrArg (Activation.registers · w.fn.nextValue) (Option.some.inj hperform)
    simp [Activation.define] at hreg
  refine ⟨_, ⟨.single (step_inst hrest hdef hperform), ?_, rfl, ?_⟩, ?_⟩
  · exact ⟨hready.define hF hdef hword, ha.block.trans hblock.symm, hbody⟩
  · intro v hv
    have hne : v ≠ w.fn.nextValue := by
      rintro rfl
      exact Nat.lt_irrefl _ hv
    simp [Activation.define, hne]
  · simp [Knows, Denotes, Activation.define]

theorem Knows.word? {F : Function} {a : Activation} {v : ValueId} {t : StaticType} {word : Word}
    (h : F.Knows a facts) (hv : (.rvalue v t, word) ∈ facts) : a.word? v = some word := by
  have hd : a.registers v = some (.word word) := h _ hv
  simp [Activation.word?, hd]

theorem emitConst_performs {c : Constant} (word : Word) (hc : c.word? = some word) :
    Performs env w facts (emitConst c) fun v => [(.rvalue v word.type, word)] :=
  emit_performs (fun _ => by simp) fun F a v _ _ => by
    simp [Definition.const, Activation.perform, hc]

theorem emitI32_performs {i : Int} :
    Performs env w facts (emitI32 i) fun v => [(.rvalue v .int, .int (.ofInt 32 i))] :=
  emitConst_performs (.int (.ofInt 32 i)) rfl

theorem emitBool_performs {b : Bool} :
    Performs env w facts (emitBool b) fun v => [(.rvalue v .boolean, .bool b)] :=
  emitConst_performs (.bool b) (by cases b <;> rfl)

theorem emitBinary_performs {op : BinOp} {l r : ValueId} {a b c : Word}
    (hl : (.rvalue l a.type, a) ∈ facts) (hr : (.rvalue r b.type, b) ∈ facts)
    (hop : op.apply a b = some c) :
    Performs env w facts (emitBinary op l r) fun v => [(.rvalue v c.type, c)] := by
  refine .read rfl (emit_performs ?_ ?_)
  · intro ho
    simpa using ⟨World.holds_rvalue.mp (ho _ hl).1, World.holds_rvalue.mp (ho _ hr).1⟩
  · intro F m v _ hk
    simp [Definition.binary, Activation.perform, Knows.word? hk hl, Knows.word? hk hr, hop]

theorem emitIcmp_performs {p : IntPredicate} {l r : ValueId} {a b : Word} {q : Bool}
    (hl : (.rvalue l a.type, a) ∈ facts) (hr : (.rvalue r b.type, b) ∈ facts)
    (hp : p.test a b = some q) :
    Performs env w facts (emit (.icmp p l r)) fun v => [(.rvalue v .boolean, .bool q)] := by
  refine emit_performs (c := .bool q) ?_ ?_
  · intro ho
    simpa using ⟨World.holds_rvalue.mp (ho _ hl).1, World.holds_rvalue.mp (ho _ hr).1⟩
  · intro F m v _ hk
    simp [Definition.icmp, Activation.perform, Knows.word? hk hl, Knows.word? hk hr, hp]

/-! ## Values -/

theorem operand_performs {v : Value} {c : Word} (hv : (v, c) ∈ facts) :
    Performs env w facts (operand v span) fun r => [(.rvalue r c.type, c)] := by
  refine .assuming fun ho => ?_
  obtain ⟨hholds, htype, hsimple⟩ := ho _ hv
  match v, hsimple with
  | .rvalue x t, _ =>
    obtain rfl : t = c.type := htype
    exact .pure (by simpa using hv)
  | .assignable ⟨.slot ptr lowered, t⟩, _ =>
    refine emit_performs ?_ ?_
    · intro _
      simpa [Place.operands, World.holds_assignable] using hholds
    · intro F a r hready hk
      obtain ⟨i, hi, hm⟩ := hk _ hv
      have hcell : a.cell? ptr = some i := by simp [Activation.cell?, hready.cells hi]
      simp [Definition.load, Activation.perform, hcell, hm]

theorem castOperand_performs {v : Value} {c : Word} (hv : (v, c) ∈ facts) :
    Performs env w facts (castOperand v c.type span) fun r => [(.rvalue r c.type, c)] := by
  refine .assuming fun ho => ?_
  unfold castOperand castImplicit
  rw [convert_self (ho _ hv).2.1, pure_bind]
  exact operand_performs hv

/-- A value of integer or boolean type converts to no other such type. -/
theorem type_eq_of_castOperand {v : Value} {t : StaticType} {word : Word} {r : ValueId}
    {s s' : GenState} (hv : v.type = word.type) (ht : t.isWord = true)
    (h : castOperand v t span env s = .ok r s') : t = word.type := by
  obtain ⟨u, s₁, h₁, -⟩ := bind_ok h
  have hfail (t' : StaticType) : (noConversion false v.type t' span : Gen Value) env s ≠ .ok u s₁ :=
    fun hn => unsupported_ok hn
  cases t <;> cases word <;>
    simp_all [StaticType.isWord, Word.type, castImplicit, convert, convertFrom]

/-! ## Operators -/

section Operators

variable {op : BinaryOp} {lhs rhs : Value} {a b c : Word} {t : StaticType}

theorem requireArithmetic_int {v : Value} (h : v.type = .int) :
    requireArithmetic op v span = pure () := by
  simp [requireArithmetic, h, StaticType.numericClass]

theorem requireInteger_int {v : Value} (h : v.type = .int) :
    requireInteger op v span = pure () := by
  simp [requireInteger, h, StaticType.numericClass]

theorem arithmetic_performs {x y z : BitVec 32} (hl : (lhs, .int x) ∈ facts)
    (hr : (rhs, .int y) ∈ facts)
    (hop : (integerInstruction op).apply (.int x) (.int y) = some (.int z)) :
    Performs env w facts (arithmetic op lhs rhs .int span) fun v => [(v, .int z)] := by
  refine .assuming fun ho => ?_
  unfold arithmetic
  rw [requireArithmetic_int (ho _ hl).2.1, requireArithmetic_int (ho _ hr).2.1]
  simp only [pure_bind, StaticType.numericClass]
  refine .bind (castOperand_performs (c := .int x) hl) fun l w₁ _ => ?_
  refine .bind (castOperand_performs (c := .int y) (by simp [hr])) fun r w₂ _ => ?_
  refine .bind (emitBinary_performs (a := .int x) (b := .int y) (by simp) (by simp) hop)
    fun v w₃ _ => ?_
  exact .pure (by simp)

/-- A shift by the masked count. -/
theorem shift_performs {inst : BinOp} {l r : ValueId} {x y z : BitVec 32}
    (hl : (.rvalue l .int, .int x) ∈ facts) (hr : (.rvalue r .int, .int y) ∈ facts)
    (hop : inst.apply (.int x) (.int (y &&& 31)) = some (.int z)) :
    Performs env w facts (shift inst l r) fun v => [(.rvalue v .int, .int z)] := by
  refine .bind emitI32_performs fun mask w₁ _ => ?_
  refine .bind (emitBinary_performs (a := .int y) (b := .int 31) (c := .int (y &&& 31))
    (by simp [hr]) List.mem_cons_self rfl) fun count w₂ _ => ?_
  exact emitBinary_performs (a := .int x) (c := .int z) (by simp [hl]) List.mem_cons_self hop

theorem bitwise_performs {x y z : BitVec 32} (hl : (lhs, .int x) ∈ facts)
    (hr : (rhs, .int y) ∈ facts) (hop : op.apply (.int x) (.int y) = some (.int z))
    (hbit : op ∈ [BinaryOp.bitAnd, .bitOr, .bitXor, .shl, .shr, .ushr]) :
    Performs env w facts (bitwise op lhs rhs span) fun v => [(v, .int z)] := by
  refine .assuming fun ho => ?_
  unfold bitwise
  rw [requireInteger_int (ho _ hl).2.1, requireInteger_int (ho _ hr).2.1]
  simp only [pure_bind]
  refine .bind (operand_performs (c := .int x) hl) fun l w₁ _ => ?_
  refine .bind (operand_performs (c := .int y) (by simp [hr])) fun r w₂ _ => ?_
  have wrap {m : Gen ValueId} {facts' : Facts}
      (h : Performs env w₂ facts' m fun v => [(.rvalue v .int, .int z)]) :
      Performs env w₂ facts' (do return .rvalue (← m) .int) fun v => [(v, .int z)] :=
    .bind h fun v w₃ _ => .pure (by simp)
  have binary {inst : BinOp} (h : inst.apply (.int x) (.int y) = some (.int z)) :
      Performs env w₂ ([(.rvalue r .int, .int y)] ++ ([(.rvalue l .int, .int x)] ++ facts))
        (do return .rvalue (← emitBinary inst l r) .int) fun v => [(v, .int z)] :=
    wrap (emitBinary_performs (a := .int x) (b := .int y) (c := .int z) (by simp) (by simp) h)
  have shifted {inst : BinOp} (h : inst.apply (.int x) (.int (y &&& 31)) = some (.int z)) :
      Performs env w₂ ([(.rvalue r .int, .int y)] ++ ([(.rvalue l .int, .int x)] ++ facts))
        (do return .rvalue (← shift inst l r) .int) fun v => [(v, .int z)] :=
    wrap (shift_performs (by simp) (by simp) h)
  simp only [List.mem_cons, List.not_mem_nil, or_false] at hbit
  rcases hbit with rfl | rfl | rfl | rfl | rfl | rfl
  · exact binary hop
  · exact binary hop
  · exact binary hop
  · exact shifted (by rw [BinOp.apply, if_pos (toNat_mod_lt y), toNat_and_31]; exact hop)
  · exact shifted (by rw [BinOp.apply, if_pos (toNat_mod_lt y), toNat_and_31]; exact hop)
  · exact shifted (by rw [BinOp.apply, if_pos (toNat_mod_lt y), toNat_and_31]; exact hop)

theorem compareWords_performs {q : Bool} (hl : (lhs, a) ∈ facts) (hr : (rhs, b) ∈ facts)
    (hp : (intPredicate op).test a b = some q) :
    Performs env w facts (compareWords op lhs rhs span) fun v => [(v, .bool q)] := by
  refine .bind (operand_performs hl) fun l w₁ _ => ?_
  refine .bind (operand_performs (c := b) (by simp [hr])) fun r w₂ _ => ?_
  refine .bind (emitIcmp_performs (a := a) (b := b) (by simp) (by simp) hp) fun v w₃ _ => ?_
  exact .pure (by simp)

theorem compare_performs {q : Bool} (hl : (lhs, a) ∈ facts) (hr : (rhs, b) ∈ facts)
    (hp : (intPredicate op).test a b = some q) (ht : a.type = b.type)
    (he : a.type = .boolean → isEquality op = true) :
    Performs env w facts (compare op lhs rhs span) fun v => [(v, .bool q)] := by
  refine .assuming fun ho => ?_
  have htl : lhs.type = a.type := (ho _ hl).2.1
  have htr : rhs.type = a.type := (ho _ hr).2.1.trans ht.symm
  unfold compare comparePlain
  cases a with
  | int x =>
    simp only [htl, htr, Word.type, boxedPayload, StaticType.numericClass, Option.isSome_none,
      Bool.or_self, Bool.false_eq_true, if_false]
    exact compareWords_performs hl hr hp
  | bool p =>
    simp only [htl, htr, Word.type, boxedPayload, StaticType.numericClass, Option.isSome_none,
      Bool.or_self, Bool.false_eq_true, if_false, he rfl, if_true]
    exact compareWords_performs hl hr hp

/-- The instruction of a comparison tests what the operator compares. -/
theorem test_of_apply (hop : op.apply a b = some c) (hc : op.isComparison = true) :
    ∃ q, c = .bool q ∧ (intPredicate op).test a b = some q ∧ a.type = b.type ∧
      (a.type = .boolean → isEquality op = true) := by
  cases op <;> simp [BinaryOp.isComparison] at hc <;> cases a <;> cases b <;>
    simp [BinaryOp.apply] at hop <;> subst hop <;>
    simp [intPredicate, isNegated, isEquality, IntPredicate.test, Word.type, BitVec.slt, BitVec.sle,
      bne, BEq.beq, em]

theorem exists_int_of_apply (hop : op.apply a b = some c) (hi : op.isIntegral = true) :
    ∃ x y z, a = .int x ∧ b = .int y ∧ c = .int z := by
  cases op <;> simp [BinaryOp.isIntegral] at hi <;> cases a <;> cases b <;>
    simp [BinaryOp.apply] at hop <;> exact ⟨_, _, _, rfl, rfl, hop.symm⟩

theorem strictBinary_performs (hl : (lhs, a) ∈ facts) (hr : (rhs, b) ∈ facts)
    (hop : op.apply a b = some c) (ht : op.isIntegral = true → t = .int) :
    Performs env w facts (strictBinary op lhs rhs t span) fun v => [(v, c)] := by
  have comparison (hc : op.isComparison = true) :
      Performs env w facts (compare op lhs rhs span) fun v => [(v, c)] := by
    obtain ⟨q, rfl, hp, hab, he⟩ := test_of_apply hop hc
    exact compare_performs hl hr hp hab he
  have integral (hi : op.isIntegral = true) : ∃ x y z, a = .int x ∧ b = .int y ∧ c = .int z :=
    exists_int_of_apply hop hi
  cases op with
  | add | sub | mul =>
    obtain ⟨x, y, z, rfl, rfl, rfl⟩ := integral rfl
    obtain rfl := ht rfl
    exact arithmetic_performs hl hr hop
  | bitAnd | bitOr | bitXor | shl | shr | ushr =>
    obtain ⟨x, y, z, rfl, rfl, rfl⟩ := integral rfl
    exact bitwise_performs hl hr hop (by simp)
  | eq | notEq | strictEq | strictNotEq | lt | ltEq | gt | gtEq => exact comparison rfl
  | div | rem | exp | and | or => cases a <;> cases b <;> cases hop

theorem unaryOperand_performs {op : UnaryOp} {v : Value} (hv : (v, a) ∈ facts)
    (hop : op.apply a = some c) :
    Performs env w facts (unaryOperand op v span) fun r => [(.rvalue r c.type, c)] := by
  refine .assuming fun ho => ?_
  have htype : v.type = a.type := (ho _ hv).2.1
  unfold unaryOperand
  cases op <;> cases a <;> cases hop <;> simp only [htype, Word.type, StaticType.numericClass]
  · next x =>
    refine .bind (operand_performs (c := .int x) hv) fun r w₁ _ => ?_
    refine .bind emitI32_performs fun zero w₂ _ => ?_
    exact emitBinary_performs (a := .int 0) (b := .int x) (c := .int (-x)) List.mem_cons_self
      (by simp) (by simp [BinOp.apply])
  · next x => exact operand_performs (c := .int x) hv
  · next p =>
    refine .bind (operand_performs (c := .bool p) hv) fun r w₁ _ => ?_
    refine .bind emitBool_performs fun one w₂ _ => ?_
    exact emitBinary_performs (a := .bool p) (b := .bool true) (c := .bool !p) (by simp)
      List.mem_cons_self (by simp [BinOp.apply])
  · next x =>
    refine .bind (operand_performs (c := .int x) hv) fun r w₁ _ => ?_
    refine .bind emitI32_performs fun ones w₂ _ => ?_
    have hones : x ^^^ BitVec.ofInt 32 (-1) = ~~~x := by
      rw [show BitVec.ofInt 32 (-1) = BitVec.allOnes 32 from rfl, BitVec.xor_allOnes]
    exact emitBinary_performs (a := .int x) (b := .int (.ofInt 32 (-1))) (c := .int (~~~x)) (by simp)
      List.mem_cons_self (by simp only [BinOp.apply, hones])

end Operators

/-! ## Ways that meet -/

end Gen

theorem World.Joins.nodup {z z' : World} {r : ValueId} {incoming : List (ValueId × BlockId)}
    (h : z.Joins z' r incoming) : (incoming.map (·.2)).Nodup := by
  obtain ⟨t, hfn⟩ := h.fn
  have hin : r ∈ z'.fn.body z.block := by
    rw [hfn, h.value, body_append _ z.flow.shaped z.inBlock, if_pos rfl]
    simp
  have hdef : z'.fn.definition? r = some (.phi t incoming) := by
    rw [hfn, h.value]
    exact definition?_append_next _ _ _
  exact (z'.flow.phis hin hdef rfl).1

/-- Control comes from a block in one way only. -/
theorem World.Joins.find? {z z' : World} {r v : ValueId} {b : BlockId}
    {incoming : List (ValueId × BlockId)} (h : z.Joins z' r incoming) (hv : (v, b) ∈ incoming) :
    incoming.find? (fun arm => arm.2 = b) = some (v, b) := by
  have hnodup := h.nodup
  clear h
  induction incoming with
  | nil => cases hv
  | cons arm rest ih =>
    rcases List.mem_cons.mp hv with rfl | hv
    · simp
    · have hne : arm.2 ≠ b := by
        rintro rfl
        exact (List.nodup_cons.mp hnodup).1 (List.mem_map.mpr ⟨_, hv, rfl⟩)
      rw [List.find?_cons_of_neg (by simpa using hne)]
      exact ih hv (List.nodup_cons.mp hnodup).2

/-- A phi takes the value of the way that control came. -/
theorem Ssa.Function.Enters.join {F : Function} {z z' : World} {a : Activation} {r v : ValueId}
    {b : BlockId} {incoming : List (ValueId × BlockId)} {registers : Registers} {c : Word}
    (h : F.Enters z.block a) (hz : z.HeadIn F) (hj : z.Joins z' r incoming)
    (hF : F.Completes z'.fn) (ho : a.origin = some (b, registers)) (hv : (v, b) ∈ incoming)
    (hc : registers v = some (.word c)) :
    ∃ a', F.Steps (.running a) (.running a') ∧ F.At z' a' ∧ a'.memory = a.memory ∧
      a'.registers r = some (.word c) ∧
      ∀ u : ValueId, u.index < z.fn.values.size → a'.registers u = a.registers u := by
  obtain ⟨t, hfn⟩ := hj.fn
  obtain rfl := hj.value
  obtain ⟨rest, hrest, hdef, hbody⟩ := (h.at hz).next hfn hj.block hF
  have hfind := hj.find? hv
  have hperform : { a with rest }.perform z.fn.nextValue (.phi incoming)
      = some ({ a with rest }.define z.fn.nextValue (.word c)) := by
    simp [Activation.perform, Activation.arm?, ho, hfind, hc]
  have hready : F.Ready { a with rest } := h.toReady.congr rfl rfl
  refine ⟨_, .single (step_inst hrest hdef hperform), ?_, rfl, by simp [Activation.define], ?_⟩
  · exact ⟨hready.define hF hdef (by simp [Definition.phi]), h.block.trans hj.block.symm, hbody⟩
  · intro u hu
    have hne : u ≠ z.fn.nextValue := by
      rintro rfl
      exact Nat.lt_irrefl _ hu
    simp [Activation.define, hne]

namespace Gen

variable {env : Env} {w : Site} {facts : Facts} {span : Span}

/-- The code of a node computes a word wherever the names are those of `scope`. -/
def Computes (env : Env) (generate : Generate) (scope : Scope String StaticType) (facts : Facts)
    (n : Node) (c : Word) : Prop :=
  ∀ w : Site, w.frame.scope = scope → Performs env w facts (generate n) fun v => [(v, c)]

variable {generate : Generate} {scope : Scope String StaticType} {n : Node} {c : Word}

theorem condition_performs {p : Bool} (hs : w.frame.scope = scope)
    (hn : Computes env generate scope facts n (.bool p)) :
    Performs env w facts (condition generate n) fun r => [(.rvalue r .boolean, .bool p)] := by
  refine .bind (hn w hs) fun v x _ => .assuming fun ho => ?_
  have htype : v.type = .boolean := (ho (v, .bool p) (by simp)).2.1
  rw [if_pos htype]
  exact operand_performs (c := .bool p) (by simp)

theorem logicalOperand_performs {op : BinaryOp} {p : Bool} (hs : w.frame.scope = scope)
    (hn : Computes env generate scope facts n (.bool p)) :
    Performs env w facts (logicalOperand generate op n span) fun r =>
      [(.rvalue r .boolean, .bool p)] := by
  refine .bind (hn w hs) fun v x _ => .assuming fun ho => ?_
  have htype : v.type = .boolean := (ho (v, .bool p) (by simp)).2.1
  rw [if_pos htype]
  exact operand_performs (c := .bool p) (by simp)

end Gen

/-- After the left operand of a logical operator control goes past the right one or to it. -/
theorem Ssa.Function.At.logicalTest {F : Function} {x : World} {a : Activation} {op : BinaryOp}
    {lhs : ValueId} {p q : Bool} {y z : World} (h : F.At x a) (hop : op.stopsAt = some p)
    (hx : x.ClosedIn F (Gen.logicalTest op lhs y.block z.block))
    (hq : a.registers lhs = some (.word (.bool q))) (hy : y.HeadIn F) (hz : z.HeadIn F) :
    ∃ a', F.Steps (.running a) (.running a') ∧ F.Enters (if q = p then z.block else y.block) a' ∧
      a'.registers = a.registers ∧ a'.memory = a.memory ∧
      a'.origin = some (x.block, a.registers) := by
  have test {b b' : BlockId} (hcond : x.ClosedIn F (.condBr lhs b b'))
      (hb : F.HasBlock b ∧ b ≠ entry) (hb' : F.HasBlock b' ∧ b' ≠ entry) :=
    h.condBr hcond hq (by cases q <;> simp [hb, hb']) (by cases q <;> simp [hb, hb'])
  have hy' := hy.enterable
  have hz' := hz.enterable
  cases op <;> simp only [BinaryOp.stopsAt, Option.some.injEq, reduceCtorEq] at hop
  · subst hop
    simp only [Gen.logicalTest, if_true] at hx
    have h := test hx hy' hz'
    cases q <;> simpa using h
  · subst hop
    simp only [Gen.logicalTest, reduceCtorEq, if_false] at hx
    have h := test hx hz' hy'
    cases q <;> simpa using h

namespace Gen

variable {env : Env} {generate : Generate} {facts : Facts} {span : Span}

/-- An arm computes what its code computes, and then control enters the block behind it. -/
theorem Arm.enters {α : Type} {F : Function} {m : Gen α} {x y y' : Site} {z : World} {r : α}
    {f : α → Facts} {a : Activation} (harm : Arm env F z.block m y y' r)
    (hxy : x.toWorld ≤ y.toWorld) (hm : Performs env y facts m f) (ho : x.Offers facts)
    (hz : z.HeadIn F) (ha : F.Enters y.block a) (hk : F.Knows a facts) :
    ∃ a', F.Steps (.running a) (.running a') ∧ F.Enters z.block a' ∧ a'.memory = a.memory ∧
      (∀ v : ValueId, v.index < x.fn.values.size → a'.registers v = a.registers v) ∧
      F.Knows a' (f r) ∧ a'.origin = some (y'.block, a'.registers) := by
  obtain ⟨y'', hstate, -, -, hrun⟩ := hm (ho.later hxy.1) r y'.state harm.runs
  have hfn : y''.fn = y'.fn := World.fn_eq_of_state hstate
  obtain ⟨a₁, hruns, hknows⟩ := hrun F (hfn ▸ harm.back.completes) a (ha.at harm.head) hk
  obtain ⟨a₂, hsteps, henters, hreg, hmem, horigin⟩ := (hruns.stands.congr hstate).br harm.back
    (hz.completes.hasBlock z.inBlock) hz.ne_entry
  refine ⟨a₂, hruns.steps.trans hsteps, henters, hmem.trans hruns.memory, ?_, ?_, ?_⟩
  · intro v hv
    rw [hreg]
    exact hruns.registers v (Nat.lt_of_lt_of_le hv hxy.1.grows.size_values)
  · exact hknows.congr hreg hmem
  · rw [horigin, hreg]

theorem logicalBranch_performs {op : BinaryOp} {right : Node} {x : Site} {lhs : ValueId}
    {p q r : Bool} (hop : op.stopsAt = some p) (hlhs : (.rvalue lhs .boolean, .bool q) ∈ facts)
    (hright : Yields env generate right) (hstop : q = p → r = q)
    (hgo : q ≠ p → Computes env generate x.frame.scope facts right (.bool r)) :
    Performs env x facts (logicalBranch generate op lhs x.block right span) fun v =>
      [(v, .bool r)] := by
  intro ho v s h
  have hhas : x.Has lhs := World.holds_rvalue.mp (ho _ hlhs).1
  obtain ⟨z, rfl, hxz, v, rfl, hv, y, y', z₀, u, hxy, hxz₀, htest, harm, hmeet, hjoin⟩ :=
    logicalBranch_spec hhas hright _ s h
  refine ⟨z, rfl, hxz, by simpa [World.Offers, Value.type, Value.isSimple] using hv, ?_⟩
  intro F hF a ha hk
  have harm := harm.completed hF
  have hmeet := hmeet.completed hF
  obtain ⟨a₁, hsteps₁, henters₁, hreg₁, hmem₁, horigin₁⟩ :=
    ha.logicalTest hop (htest.completed hF) (hk _ hlhs) harm.head hmeet
  -- control is at the phi, having come from a block where the value is known
  have finish {a₂ : Activation} {e : ValueId} {b : BlockId} {registers : Registers}
      (hsteps : F.Steps (.running a) (.running a₂)) (henters : F.Enters z₀.block a₂)
      (hmem : a₂.memory = a.memory)
      (hreg : ∀ u : ValueId, u.index < x.fn.values.size → a₂.registers u = a.registers u)
      (horigin : a₂.origin = some (b, registers))
      (hin : (e, b) ∈ [(lhs, x.block), (u, y'.block)])
      (hvalue : registers e = some (.word (.bool r))) :
      ∃ a', F.Runs x.toWorld z.toWorld a a' ∧ F.Knows a' [(.rvalue v .boolean, .bool r)] := by
    obtain ⟨a₃, hsteps₃, hat, hmem₃, hres, hreg₃⟩ :=
      henters.join hmeet hjoin hF horigin hin hvalue
    refine ⟨a₃, ⟨hsteps.trans hsteps₃, hat, hmem₃.trans hmem, ?_⟩, by simpa [Knows, Denotes]⟩
    intro u hu
    exact (hreg₃ u (Nat.lt_of_lt_of_le hu hxz₀.1.grows.size_values)).trans (hreg u hu)
  by_cases hqp : q = p
  · rw [if_pos hqp] at henters₁
    obtain rfl := hstop hqp
    exact finish hsteps₁ henters₁ hmem₁ (fun u _ => congrFun hreg₁ u) horigin₁
      List.mem_cons_self (hk _ hlhs)
  · rw [if_neg hqp] at henters₁
    have hknows₁ := hk.congr hreg₁ hmem₁
    obtain ⟨a₂, hsteps₂, henters₂, hmem₂, hreg₂, hknows₂, horigin₂⟩ := harm.enters hxy
      (logicalOperand_performs (World.scope_eq hxy) (hgo hqp)) ho hmeet henters₁ hknows₁
    refine finish (hsteps₁.trans hsteps₂) henters₂ (hmem₂.trans hmem₁) ?_ horigin₂
      (by simp) (hknows₂ (.rvalue u .boolean, .bool r) (by simp))
    intro u hu
    exact (hreg₂ u hu).trans (congrFun hreg₁ u)

theorem shortCircuit_performs {op : BinaryOp} {left right : Node} {w : Site} {p q r : Bool}
    (hop : op.stopsAt = some p)
    (hleft : Computes env generate w.frame.scope facts left (.bool q))
    (hright : Yields env generate right) (hstop : q = p → r = q)
    (hgo : q ≠ p → Computes env generate w.frame.scope facts right (.bool r)) :
    Performs env w facts (shortCircuit generate op left right span) fun v => [(v, .bool r)] := by
  rw [shortCircuit_eq]
  refine .bind (logicalOperand_performs rfl hleft) fun lhs x hx => .read rfl ?_
  refine logicalBranch_performs hop (by simp) hright hstop ?_
  intro hqp y hy
  have hscope : y.frame.scope = w.frame.scope := hy.trans (World.scope_eq hx)
  exact (hgo hqp y hscope).mono (by simp) fun _ => List.Subset.refl _

theorem conditionalArm_performs {n : Node} {w : Site} {c : Word}
    (hn : Computes env generate w.frame.scope facts n c) :
    Performs env w facts (conditionalArm generate n c.type span) fun r =>
      r.toList.map fun v => (.rvalue v c.type, c) := by
  refine .bind (hn w rfl) fun v x _ => ?_
  have htype : c.type ≠ .void := by cases c <;> simp
  rw [if_neg htype]
  refine .bind (castOperand_performs (c := c) (by simp)) fun r y _ => ?_
  exact .pure (by simp)

/-- An arm of a conditional at an integer or boolean type has a value of that type. -/
theorem exists_of_conditionalArm {n : Node} {t : StaticType} {s s' : GenState}
    {r : Option ValueId} (ht : t.isWord = true)
    (h : conditionalArm generate n t span env s = .ok r s') : ∃ a, r = some a := by
  obtain ⟨v, s₁, -, h⟩ := bind_ok h
  have hvoid : t ≠ .void := by
    rintro rfl
    cases ht
  rw [if_neg hvoid] at h
  obtain ⟨a, s₂, -, h⟩ := bind_ok h
  exact ⟨a, (pure_ok h).1⟩

theorem type_eq_of_conditionalArm {n : Node} {t : StaticType} {w : Site} {s : GenState} {c : Word}
    {r : Option ValueId} (hn : Computes env generate w.frame.scope facts n c) (ho : w.Offers facts)
    (ht : t.isWord = true) (h : conditionalArm generate n t span env w.state = .ok r s) :
    t = c.type := by
  obtain ⟨v, s₁, h₁, h⟩ := bind_ok h
  obtain ⟨x, rfl, -, hoff, -⟩ := hn w rfl ho v s₁ h₁
  have hvoid : t ≠ .void := by
    rintro rfl
    cases ht
  rw [if_neg hvoid] at h
  obtain ⟨a, s₂, h₂, -⟩ := bind_ok h
  exact type_eq_of_castOperand (hoff (v, c) (by simp)).2.1 ht h₂

theorem valueOf_word {r : ValueId} {t : StaticType} (ht : t.isWord = true) :
    valueOf r t span = pure (.rvalue r t) := by
  cases t <;> simp_all [StaticType.isWord, valueOf]

theorem conditionalBranch_performs {thenExpr elseExpr : Node} {t : StaticType} {x : Site}
    {c : ValueId} {p : Bool} {k : Word} (ht : t.isWord = true)
    (hc : (.rvalue c .boolean, .bool p) ∈ facts) (hthen : Yields env generate thenExpr)
    (helse : Yields env generate elseExpr)
    (harm : Computes env generate x.frame.scope facts (if p then thenExpr else elseExpr) k) :
    Performs env x facts (conditionalBranch generate c thenExpr elseExpr t span) fun v =>
      [(v, k)] := by
  intro ho v s h
  have hhas : x.Has c := World.holds_rvalue.mp (ho _ hc).1
  obtain ⟨z, rfl, hxz, hv, y₁, y₁', y₂, y₂', z₀, r₁, r₂, hxy₁, hxy₂, hxz₀, htest, hfirst, hsecond,
    hmeet, hphi⟩ := conditionalBranch_spec hhas hthen helse v s h
  obtain ⟨a₁, rfl⟩ := exists_of_conditionalArm ht hfirst.runs
  obtain ⟨a₂, rfl⟩ := exists_of_conditionalArm ht hsecond.runs
  obtain ⟨z₁, r, hjoin, hz₁, hvalue⟩ := hphi a₁ a₂ rfl rfl
  rw [valueOf_word ht] at hvalue
  obtain ⟨rfl, hstate⟩ := pure_ok hvalue
  -- the arm that is gone through tells the type
  have within {y : Site} (hy : x.toWorld ≤ y.toWorld) {n : Node}
      (hn : Computes env generate x.frame.scope facts n k) :
      Computes env generate y.frame.scope facts n k := by
    rw [World.scope_eq hy]
    exact hn
  have htype : t = k.type := by
    cases p with
    | true => exact type_eq_of_conditionalArm (within hxy₁ harm) (ho.later hxy₁.1) ht hfirst.runs
    | false => exact type_eq_of_conditionalArm (within hxy₂ harm) (ho.later hxy₂.1) ht hsecond.runs
  subst htype
  refine ⟨z, rfl, hxz, ?_, ?_⟩
  · simpa [World.Offers, Value.type, Value.isSimple] using hv
  intro F hF a ha hk
  have hfirst := hfirst.completed hF
  have hsecond := hsecond.completed hF
  have hmeet := hmeet.completed hF
  have hhas₁ := hfirst.head.enterable
  have hhas₂ := hsecond.head.enterable
  obtain ⟨b, hsteps, henters, hreg, hmem, -⟩ := ha.condBr (htest.completed hF) (hk _ hc)
    (by cases p <;> simp [hhas₁, hhas₂]) (by cases p <;> simp [hhas₁, hhas₂])
  have finish {b' : Activation} {e : ValueId} {source : BlockId} {registers : Registers}
      (hsteps' : F.Steps (.running b) (.running b')) (henters : F.Enters z₀.block b')
      (hmem' : b'.memory = b.memory)
      (hreg' : ∀ u : ValueId, u.index < x.fn.values.size → b'.registers u = b.registers u)
      (horigin : b'.origin = some (source, registers))
      (hin : (e, source) ∈ [(a₁, y₁'.block), (a₂, y₂'.block)])
      (hvalue : registers e = some (.word k)) :
      ∃ a', F.Runs x.toWorld z.toWorld a a' ∧ F.Knows a' [(.rvalue r k.type, k)] := by
    obtain ⟨a', hsteps'', hat, hmem'', hres, hreg''⟩ := henters.join hmeet hjoin
      (hF.trans (Site.later hz₁).completes) horigin hin hvalue
    refine ⟨a', ⟨hsteps.trans (hsteps'.trans hsteps''), hat.congr hstate.symm,
      hmem''.trans (hmem'.trans hmem), ?_⟩, by simpa [Knows, Denotes]⟩
    intro u hu
    have h₁ := hreg'' u (Nat.lt_of_lt_of_le hu hxz₀.1.grows.size_values)
    exact h₁.trans ((hreg' u hu).trans (congrFun hreg u))
  cases p with
  | true =>
    obtain ⟨b', hsteps', henters', hmem', hreg', hknows', horigin'⟩ := hfirst.enters hxy₁
      (conditionalArm_performs (within hxy₁ harm)) ho hmeet henters (hk.congr hreg hmem)
    exact finish hsteps' henters' hmem' hreg' horigin' (by simp)
      (hknows' (.rvalue a₁ k.type, k) (by simp))
  | false =>
    obtain ⟨b', hsteps', henters', hmem', hreg', hknows', horigin'⟩ := hsecond.enters hxy₂
      (conditionalArm_performs (within hxy₂ harm)) ho hmeet henters (hk.congr hreg hmem)
    exact finish hsteps' henters' hmem' hreg' horigin' (by simp)
      (hknows' (.rvalue a₂ k.type, k) (by simp))

end Gen

end TypedLowering
