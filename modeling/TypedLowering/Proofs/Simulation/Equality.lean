import TypedLowering.Proofs.Flow.Completion
import TypedLowering.Proofs.Simulation.Cells

/-!
Equality with a nullable primitive. Its code tests first which sides are undefined; only where none is
it goes to a block of its own, reads the cells and compares what is in them. A phi takes the result of
the test or that of the comparison, and the operator that asks for a difference negates it.

Main statement:

- `compare_nullable`: the comparison is generated, its code computes `Primitive.optionEquals` of the
  two sides or the negation, and it reads their cells exactly if both are there.
-/
namespace TypedLowering
set_option autoImplicit false
open Ssa Ssa.Heap

/-! ## Types -/

namespace StaticType

/-- The type of what a nullable value holds, or the type itself. -/
def payload : StaticType → StaticType
  | .nullable t => t
  | t => t

/-- Values of both types are numbers of some kind, or truth values. -/
def ComparesWith (s t : StaticType) : Prop :=
  (s ∈ [int, number] ∧ t ∈ [int, number]) ∨ (s = boolean ∧ t = boolean)

theorem ComparesWith.numericClass {s t : StaticType} (h : s.ComparesWith t) :
    s.numericClass.isSome = true ∧ t.numericClass.isSome = true := by
  simp only [ComparesWith, List.mem_cons, List.not_mem_nil, or_false] at h
  rcases h with ⟨rfl | rfl, rfl | rfl⟩ | ⟨rfl, rfl⟩ <;> exact ⟨rfl, rfl⟩

end StaticType

namespace Primitive

@[simp] theorem isNullable_type (u : Primitive) : u.type.isNullable = false := by
  match u with
  | .word (.int _) | .word (.bool _) | .number _ => rfl

@[simp] theorem payload_type (u : Primitive) : u.type.payload = u.type := by
  match u with
  | .word (.int _) | .word (.bool _) | .number _ => rfl

theorem lowered_type (u : Primitive) (span : Span) : u.type.lowered span = .ok u.ty := by
  match u with
  | .word (.int _) | .word (.bool _) | .number _ => rfl

end Primitive

namespace Ssa.Heap

/-- The cell that a register leads to, if there is one. -/
def Content.cells (d : Content) : List Nat := d.cell?.toList

theorem Represents.type_eq {cells : Cells} {t : StaticType} {u : Primitive} {d : Content}
    (h : Represents cells t (some u) d) : t.payload = u.type := by
  cases h with
  | plain => exact u.payload_type
  | boxed _ => rfl

end Ssa.Heap

namespace Gen

variable {env : Env} {cells : Cells} {w : Site} {contents : Contents} {span : Span}
  {x y : ValueId} {s t : StaticType} {p q : Option Primitive} {u v : Primitive} {d e : Content}

/-! ## Instructions -/

theorem emitConst_performsOn {c : Constant} (hc : constant? c = some d) :
    PerformsOn env cells w contents (emitConst c) (fun v => [(v, d)]) [] :=
  .emit (fun _ => by simp) fun a _ => by
    simp [Definition.const, State.result?, hc]

theorem emitBool_performsOn {b : Bool} :
    PerformsOn env cells w contents (emitBool b) (fun v => [(v, .bool b)]) [] :=
  emitConst_performsOn (by cases b <;> rfl)

theorem emitBinary_performsOn {op : BinOp} {a b c : Bool} (hx : (x, .bool a) ∈ contents)
    (hy : (y, .bool b) ∈ contents) (hop : op.apply (.bool a) (.bool b) = some (.bool c)) :
    PerformsOn env cells w contents (emitBinary op x y) (fun v => [(v, .bool c)]) [] := by
  refine .look rfl (.emit (fun ho => by simpa using ⟨ho _ hx, ho _ hy⟩) fun a hk => ?_)
  simp [Definition.binary, State.result?, hk _ hx, hk _ hy, Content.word?, hop]

theorem emitIcmp_performsOn {pred : IntPredicate} {c : Bool} (hx : (x, d) ∈ contents)
    (hy : (y, e) ∈ contents) (hc : compare? pred d e = some c) :
    PerformsOn env cells w contents (emit (.icmp pred x y)) (fun v => [(v, .bool c)]) [] := by
  refine .emit (fun ho => by simpa using ⟨ho _ hx, ho _ hy⟩) fun a hk => ?_
  simp [Definition.icmp, State.result?, hk _ hx, hk _ hy, hc]

theorem emitFcmp_performsOn {f g : Binary64} (hx : (x, .primitive (.number f)) ∈ contents)
    (hy : (y, .primitive (.number g)) ∈ contents) :
    PerformsOn env cells w contents (emit (.fcmp .oeq x y)) (fun v => [(v, .bool (f.orderedEq g))])
      [] := by
  refine .emit (fun ho => by simpa using ⟨ho _ hx, ho _ hy⟩) fun a hk => ?_
  simp [Definition.fcmp, State.result?, hk _ hx, hk _ hy, Content.number?, compareNumbers?]

/-- A load of the cell that a pointer leads to. -/
theorem emitLoad_performsOn {cell : Nat} (hx : (x, .pointer (some cell)) ∈ contents)
    (hcell : cells cell = some u) :
    PerformsOn env cells w contents (emit (.load u.ty x)) (fun v => [(v, .primitive u)]) [cell] := by
  refine .emit (fun ho => by simpa using ho _ hx) fun a hk => ?_
  simp [Definition.load, State.result?, hk _ hx, Content.cell?, hcell]

/-! ## Payloads -/

theorem castOperand_number : castOperand (.rvalue x .number) .number span = pure x := by
  simp [castOperand, castImplicit, convert, operand, Value.type]

theorem castOperand_int :
    castOperand (.rvalue x .int) .number span = emit (.cast .sitofp x .f64) := by
  simp [castOperand, castImplicit, convert, convertFrom, operand, Value.type]

/-- A number as a double. -/
theorem castOperand_performsOn {f : Binary64} (hx : (x, .primitive u) ∈ contents)
    (hu : u = .number f ∨ ∃ i, u = .word (.int i) ∧ f = .ofInt i.toInt) :
    PerformsOn env cells w contents (castOperand (.rvalue x u.type) .number span)
      (fun v => [(v, .primitive (.number f))]) [] := by
  rcases hu with rfl | ⟨i, rfl, rfl⟩
  · exact castOperand_number ▸ .pure (by simpa using hx)
  · refine castOperand_int ▸ .emit (fun ho => by simpa using ho _ hx) fun a hk => ?_
    simp [Definition.cast, State.result?, hk _ hx, cast?]

/-- The comparison of two values that are there. -/
def comparePayloads (x y : ValueId) (s t : StaticType) (span : Span) : Gen ValueId := do
  operand (← comparePlain .strictEq (.rvalue x s) (.rvalue y t) span) span

theorem comparePayloads_words (h : s ∈ [.int, .boolean]) :
    comparePayloads x y s s span = emit (.icmp .eq x y) := by
  simp only [List.mem_cons, List.not_mem_nil, or_false] at h
  rcases h with rfl | rfl <;>
    simp [comparePayloads, comparePlain, compareWords, operand, Value.type, StaticType.numericClass,
      intPredicate, isNegated, isEquality]

theorem comparePayloads_numbers (h : s.ComparesWith t) (hs : s = .number ∨ t = .number) :
    comparePayloads x y s t span = (do
      let l ← castOperand (.rvalue x s) .number span
      let r ← castOperand (.rvalue y t) .number span
      emit (.fcmp .oeq l r)) := by
  simp only [StaticType.ComparesWith, List.mem_cons, List.not_mem_nil, or_false] at h
  rcases h with ⟨rfl | rfl, rfl | rfl⟩ | ⟨rfl, rfl⟩ <;> simp only [reduceCtorEq, or_self] at hs <;>
    simp [comparePayloads, comparePlain, operand, Value.type, StaticType.numericClass,
      floatPredicate, isNegated]

theorem comparePayloads_performsOn (hx : (x, .primitive u) ∈ contents)
    (hy : (y, .primitive v) ∈ contents) (h : u.type.ComparesWith v.type) :
    PerformsOn env cells w contents (comparePayloads x y u.type v.type span)
      (fun r => [(r, .bool (u.equals v))]) [] := by
  have numbers {f g : Binary64} (hs : u.type = .number ∨ v.type = .number)
      (hu : u = .number f ∨ ∃ i, u = .word (.int i) ∧ f = .ofInt i.toInt)
      (hv : v = .number g ∨ ∃ i, v = .word (.int i) ∧ g = .ofInt i.toInt) :
      PerformsOn env cells w contents (comparePayloads x y u.type v.type span)
        (fun r => [(r, .bool (f.orderedEq g))]) [] := by
    rw [comparePayloads_numbers h hs]
    refine .andThen (castOperand_performsOn hx hu) fun l w₁ _ => ?_
    refine .andThen (castOperand_performsOn (by simp [hy]) hv) fun r w₂ _ => ?_
    exact emitFcmp_performsOn (by simp) (by simp)
  match u, v with
  | .word (.int i), .word (.int j) =>
    have hrun : comparePayloads x y .int .int span = _ := comparePayloads_words (by simp)
    exact hrun ▸ emitIcmp_performsOn hx hy rfl
  | .word (.bool a), .word (.bool b) =>
    have hrun : comparePayloads x y .boolean .boolean span = _ := comparePayloads_words (by simp)
    exact hrun ▸ emitIcmp_performsOn hx hy rfl
  | .number f, .number g => exact numbers (.inl rfl) (.inl rfl) (.inl rfl)
  | .word (.int i), .number g => exact numbers (.inr rfl) (.inr ⟨i, rfl, rfl⟩) (.inl rfl)
  | .number f, .word (.int j) => exact numbers (.inl rfl) (.inl rfl) (.inr ⟨j, rfl, rfl⟩)
  | .word (.int _), .word (.bool _) | .word (.bool _), .word (.int _) | .word (.bool _), .number _
  | .number _, .word (.bool _) => simp [StaticType.ComparesWith, Primitive.type] at h

/-! ## Sides -/

/-- A side with a computed operand. -/
def sideOf (x : ValueId) (t : StaticType) : EqualitySide := ⟨x, t.payload, t.isNullable⟩

theorem equalitySide_rvalue (h : t.payload.numericClass.isSome = true) :
    equalitySide (.rvalue x t) span = pure (sideOf x t) := by
  cases t with
  | nullable u =>
    have hboxed : boxedPayload (.nullable u) = some u := if_pos h
    simp [equalitySide, operand, Value.type, hboxed, sideOf, StaticType.payload,
      StaticType.isNullable]
  | _ =>
    simp [equalitySide, operand, Value.type, boxedPayload, sideOf, StaticType.payload,
      StaticType.isNullable]

theorem emitIsUndefined_performsOn (hx : (x, d) ∈ contents) (h : Represents cells t p d) :
    PerformsOn env cells w contents (emitIsUndefined (sideOf x t)) (fun v => [(v, .bool p.isNone)])
      [] := by
  unfold emitIsUndefined sideOf
  cases h with
  | @plain u =>
    rw [u.isNullable_type]
    exact emitBool_performsOn
  | undefined =>
    refine .andThen (emitConst_performsOn rfl) fun null w₁ _ => ?_
    exact emitIcmp_performsOn (List.mem_cons_of_mem _ hx) List.mem_cons_self rfl
  | boxed _ =>
    refine .andThen (emitConst_performsOn rfl) fun null w₁ _ => ?_
    exact emitIcmp_performsOn (List.mem_cons_of_mem _ hx) List.mem_cons_self rfl

/-- The operand of the payload of a side. -/
def payloadOperand (s : EqualitySide) (span : Span) : Gen ValueId := do
  if s.boxed then
    let lowered ← layout s.payload span
    emit (.load lowered s.operand)
  else return s.operand

theorem payloadValue_eq (s : EqualitySide) (span : Span) :
    payloadValue s span = do return .rvalue (← payloadOperand s span) s.payload := by
  unfold payloadValue payloadOperand
  split <;> simp

/-- A side that is there has its cell read, if it has one. -/
theorem payloadOperand_performsOn (hx : (x, d) ∈ contents) (h : Represents cells t (some u) d) :
    PerformsOn env cells w contents (payloadOperand (sideOf x t) span)
      (fun v => [(v, .primitive u)]) d.cells := by
  unfold payloadOperand sideOf
  cases h with
  | plain =>
    rw [u.isNullable_type]
    exact .pure (by simpa using hx)
  | boxed hcell =>
    have hlayout : layout u.type span = pure u.ty := by rw [layout, u.lowered_type]; rfl
    simp only [StaticType.isNullable, StaticType.payload, if_true, hlayout, pure_bind]
    exact emitLoad_performsOn hx hcell

theorem comparePresent_eq (l r : EqualitySide) (span : Span) : comparePresent l r span = (do
    let x ← payloadOperand l span
    let y ← payloadOperand r span
    comparePayloads x y l.payload r.payload span) := by
  simp only [comparePresent, payloadValue_eq, bind_assoc, pure_bind, comparePayloads]

theorem comparePresent_performsOn (hx : (x, d) ∈ contents) (hy : (y, e) ∈ contents)
    (hd : Represents cells s (some u) d) (he : Represents cells t (some v) e)
    (h : s.payload.ComparesWith t.payload) :
    PerformsOn env cells w contents (comparePresent (sideOf x s) (sideOf y t) span)
      (fun r => [(r, .bool (u.equals v))]) (d.cells ++ e.cells) := by
  rw [comparePresent_eq]
  refine .bind (payloadOperand_performsOn hx hd) fun l w₁ _ => ?_
  refine .finish (payloadOperand_performsOn (List.mem_cons_of_mem _ hy) he) fun r w₂ _ => ?_
  show PerformsOn env cells w₂ _ (comparePayloads l r s.payload t.payload span) _ []
  rw [hd.type_eq, he.type_eq] at h ⊢
  exact comparePayloads_performsOn (by simp) (by simp) h

/-! ## The test and the comparison -/

/-- The cells that are read to compare two sides. -/
def readCells (p q : Option Primitive) (d e : Content) : List Nat :=
  if p.isSome && q.isSome then d.cells ++ e.cells else []

/-- Where a side is undefined, control goes straight to the phi, and else by way of the comparison. -/
theorem payloadBranch_performsOn {both either : ValueId} (hx : (x, d) ∈ contents)
    (hy : (y, e) ∈ contents) (hd : Represents cells s p d) (he : Represents cells t q e)
    (h : s.payload.ComparesWith t.payload)
    (hboth : (both, .bool (p.isNone && q.isNone)) ∈ contents)
    (heither : (either, .bool (p.isNone || q.isNone)) ∈ contents) :
    PerformsOn env cells w contents
      (payloadBranch (sideOf x s) (sideOf y t) both either w.block span)
      (fun v => [(v, .bool (Primitive.optionEquals p q))]) (readCells p q d e) := by
  intro ho v z' hrun
  obtain ⟨z, rfl, hwz, hv, y₁, y₂, z₀, equal, hwy, hwz₀, htest, harm, hmeet, hjoin⟩ :=
    payloadBranch_spec (l := sideOf x s) (r := sideOf y t) (ho _ hx) (ho _ hy) (ho _ hboth)
      (ho _ heither) v z' hrun
  refine ⟨z, rfl, hwz, by simpa [World.Supplies] using hv, ?_⟩
  intro F hF a ha hk
  have harm := harm.completed hF
  have hmeet := hmeet.completed hF
  have hhead := harm.head.enterable
  have hend := hmeet.enterable
  obtain ⟨a₁, htested⟩ : ∃ a₁, Heap.Passes cells F w.toWorld
      (if p.isNone || q.isNone then z₀.block else y₁.block) a a₁ :=
    ha.condBr (htest.completed hF) (hk _ heither) (by split <;> simp [hhead, hend])
      (by split <;> simp [hhead, hend])
  have hundefined (hnone : (p.isNone || q.isNone) = true) : ∃ a', Heap.Runs cells F w.toWorld
      z.toWorld [] a a' ∧ a'.Knows [(v, .bool (p.isNone && q.isNone))] := by
    rw [if_pos hnone] at htested
    exact htested.enters.runs hmeet hjoin hF htested.steps
      (htested.loads.trans (List.append_nil _).symm) hwz₀.1 (fun u _ => congrFun htested.registers u)
      htested.origin List.mem_cons_self (hk _ hboth)
  cases p with
  | none => cases q <;> exact hundefined rfl
  | some u =>
    cases q with
    | none => exact hundefined rfl
    | some u' =>
      have hknows : a₁.Knows contents := fun c hc => htested.registers ▸ hk c hc
      obtain ⟨a₂, a₃, hruns, hequal, hback⟩ := harm.passes hwy
        (comparePresent_performsOn hx hy hd he h) ho hmeet htested.enters hknows
      have hvalue : a₂.registers equal = some (.bool (u.equals u')) := hequal _ List.mem_cons_self
      refine hback.enters.runs hmeet hjoin hF
        (htested.steps.trans (hruns.steps.trans hback.steps)) ?_ hwz₀.1 (fun c hc => ?_)
        hback.origin (by simp) hvalue
      · rw [hback.loads, hruns.loads, htested.loads]
        rfl
      · have hc' : c.index < y₁.fn.values.size := Nat.lt_of_lt_of_le hc hwy.1.grows.size_values
        rw [hback.registers, hruns.registers c hc', htested.registers]

theorem negateIf_performsOn {negated a : Bool} (hx : (x, .bool a) ∈ contents) :
    PerformsOn env cells w contents (negateIf negated x)
      (fun v => [(v, .bool (negated ^^ a))]) [] := by
  unfold negateIf
  cases negated with
  | true =>
    refine .andThen emitBool_performsOn fun truth w₁ _ => ?_
    exact emitBinary_performsOn (List.mem_cons_of_mem _ hx) List.mem_cons_self
      (by simp [BinOp.apply])
  | false => exact .pure (by simpa using hx)

theorem sidesOperand_performsOn {negated : Bool} (hx : (x, d) ∈ contents) (hy : (y, e) ∈ contents)
    (hd : Represents cells s p d) (he : Represents cells t q e)
    (h : s.payload.ComparesWith t.payload) :
    PerformsOn env cells w contents (sidesOperand (sideOf x s) (sideOf y t) negated span)
      (fun v => [(v, .bool (negated ^^ Primitive.optionEquals p q))]) (readCells p q d e) := by
  refine .andThen (emitIsUndefined_performsOn hx hd) fun lu w₁ _ => ?_
  refine .andThen (emitIsUndefined_performsOn (List.mem_cons_of_mem _ hy) he) fun ru w₂ _ => ?_
  refine .andThen (emitBinary_performsOn (a := p.isNone) (b := q.isNone) (by simp) (by simp) rfl)
    fun both w₃ _ => ?_
  refine .andThen (emitBinary_performsOn (a := p.isNone) (b := q.isNone) (by simp) (by simp) rfl)
    fun either w₄ _ => .look rfl ?_
  refine .finish (payloadBranch_performsOn (by simp [hx]) (by simp [hy]) hd he h (by simp)
    (by simp)) fun result w₅ _ => ?_
  exact negateIf_performsOn List.mem_cons_self

/-! ## Generation -/

/-- The code of `m` is generated, unless the current block has its end already. -/
def Assured {α : Type} (env : Env) (m : Gen α) : Prop :=
  ∀ s, Leads env s m (fun _ _ => True) fun e _ => e = .misplaced

namespace Assured

variable {α β : Type}

protected theorem pure (a : α) : Assured env (pure a) := fun _ => .pure trivial

protected theorem bind {m : Gen α} {k : α → Gen β} (hm : Assured env m)
    (hk : ∀ a, Assured env (k a)) : Assured env (m >>= k) :=
  fun s => (hm s).bind fun a s' _ _ => hk a s'

theorem of_run {m : Gen α} (h : ∀ s, ∃ a t, m env s = .ok a t) : Assured env m := by
  intro s
  obtain ⟨a, t, hm⟩ := h s
  exact .of_ok hm trivial

theorem requireOpen : Assured env requireOpen := by
  refine .bind (of_run fun _ => ⟨_, _, rfl⟩) fun terminated => ?_
  cases terminated with
  | true => exact fun _ => .of_error rfl rfl
  | false => exact .pure ()

theorem emit (d : Definition) : Assured env (emit d) :=
  requireOpen.bind fun _ => of_run fun _ => ⟨_, _, rfl⟩

theorem terminate (t : Terminator) : Assured env (terminate t) :=
  requireOpen.bind fun _ => of_run fun _ => ⟨_, _, rfl⟩

theorem emitBinary (op : BinOp) (l r : ValueId) : Assured env (emitBinary op l r) :=
  .bind (of_run fun _ => ⟨_, _, rfl⟩) fun _ => .emit _

theorem emitIsUndefined (s : EqualitySide) : Assured env (emitIsUndefined s) := by
  unfold Gen.emitIsUndefined
  split
  · exact .bind (.emit _) fun null => .emit _
  · exact .emit _

theorem negateIf (negated : Bool) (v : ValueId) : Assured env (negateIf negated v) := by
  unfold Gen.negateIf
  split
  · exact .bind (.emit _) fun truth => .emitBinary _ _ _
  · exact .pure v

theorem castOperand (h : t ∈ [.int, .number]) :
    Assured env (castOperand (.rvalue x t) .number span) := by
  simp only [List.mem_cons, List.not_mem_nil, or_false] at h
  rcases h with rfl | rfl
  · rw [castOperand_int]
    exact .emit _
  · rw [castOperand_number]
    exact .pure x

theorem comparePayloads (h : s.ComparesWith t) : Assured env (comparePayloads x y s t span) := by
  have numbers (hs : s = .number ∨ t = .number) (hst : s ∈ [.int, .number] ∧ t ∈ [.int, .number]) :
      Assured env (Gen.comparePayloads x y s t span) := by
    rw [comparePayloads_numbers h hs]
    exact .bind (castOperand hst.1) fun l => .bind (castOperand hst.2) fun r => .emit _
  have words (hs : s ∈ [.int, .boolean]) (hst : t = s) :
      Assured env (Gen.comparePayloads x y s t span) := by
    rw [hst, comparePayloads_words hs]
    exact .emit _
  rcases h with ⟨hs, ht⟩ | ⟨rfl, rfl⟩
  · by_cases hn : s = .number ∨ t = .number
    · exact numbers hn ⟨hs, ht⟩
    · simp_all
  · exact words (by simp) rfl

theorem payloadOperand {s : EqualitySide} (h : s.payload.numericClass.isSome = true) :
    Assured env (payloadOperand s span) := by
  have hlayout : Assured env (layout s.payload span) := by
    cases hs : s.payload <;> rw [hs] at h <;> first | exact .pure _ | cases h
  unfold Gen.payloadOperand
  split
  · exact .bind hlayout fun lowered => .emit _
  · exact .pure _

theorem sidesOperand {l r : EqualitySide} {negated : Bool} (h : l.payload.ComparesWith r.payload) :
    Assured env (sidesOperand l r negated span) := by
  have hpresent : Assured env (comparePresent l r span) := by
    rw [comparePresent_eq]
    exact .bind (.payloadOperand h.numericClass.1) fun x =>
      .bind (.payloadOperand h.numericClass.2) fun y => .comparePayloads h
  have hbranch (both either : ValueId) (entry : BlockId) :
      Assured env (payloadBranch l r both either entry span) := by
    refine .bind (of_run fun _ => ⟨_, _, rfl⟩) fun payload => ?_
    refine .bind (of_run fun _ => ⟨_, _, rfl⟩) fun merge => ?_
    refine .bind (.terminate _) fun _ => .bind (of_run fun _ => ⟨_, _, rfl⟩) fun _ => ?_
    refine .bind hpresent fun equal => .bind (of_run fun _ => ⟨_, _, rfl⟩) fun payloadEnd => ?_
    exact .bind (.terminate _) fun _ => .bind (of_run fun _ => ⟨_, _, rfl⟩) fun _ => .emit _
  refine .bind (.emitIsUndefined _) fun lu => .bind (.emitIsUndefined _) fun ru => ?_
  refine .bind (.emitBinary _ _ _) fun both => .bind (.emitBinary _ _ _) fun either => ?_
  refine .bind (of_run fun _ => ⟨_, _, rfl⟩) fun entry => ?_
  exact .bind (hbranch _ _ _) fun result => .negateIf _ _

end Assured

/-! ## Main statement -/

theorem compareNullable_sides {negated : Bool} (h : s.payload.ComparesWith t.payload) :
    compareNullable (.rvalue x s) (.rvalue y t) negated span = do
      return .rvalue (← sidesOperand (sideOf x s) (sideOf y t) negated span) .boolean := by
  rw [compareNullable_eq, equalitySide_rvalue h.numericClass.1, equalitySide_rvalue h.numericClass.2,
    pure_bind, pure_bind, compareSides_eq]

theorem compare_eq_compareNullable {op : BinaryOp} (hop : isEquality op = true)
    (hnull : s.isNullable = true ∨ t.isNullable = true) (h : s.payload.ComparesWith t.payload) :
    compare op (.rvalue x s) (.rvalue y t) span =
      compareNullable (.rvalue x s) (.rvalue y t) (isNegated op) span := by
  have hboxed {t : StaticType} (ht : t.payload.numericClass.isSome = true)
      (hn : t.isNullable = true) : (boxedPayload t).isSome = true := by
    cases t with
    | nullable u => simpa [boxedPayload, StaticType.payload] using ht
    | _ => cases hn
  have hany : ((boxedPayload s).isSome || (boxedPayload t).isSome) = true := by
    rw [Bool.or_eq_true]
    exact hnull.imp (hboxed h.numericClass.1) (hboxed h.numericClass.2)
  simp [compare, Value.type, hany, hop]

/-- A comparison of payloads that compare is generated. -/
theorem sidesOperand_run {negated : Bool} (h : s.payload.ComparesWith t.payload) :
    ∃ (v : ValueId) (z : GenState),
      sidesOperand (sideOf x s) (sideOf y t) negated span env w.state = .ok v z := by
  have hopen : w.state.Open := ⟨w.fn, w.current, w.inBlock, w.isOpen⟩
  have hflows : Flows env Value (compareNullable (.rvalue x s) (.rvalue y t) negated span) :=
    compareNullable_flows _ _ _ _
  rw [compareNullable_sides h] at hflows
  have hassured : Assured env (sidesOperand (sideOf x s) (sideOf y t) negated span) :=
    .sidesOperand h
  cases hrun : sidesOperand (sideOf x s) (sideOf y t) negated span env w.state with
  | ok v z => exact ⟨v, z, rfl⟩
  | error e z =>
    exact ((hflows w.state hopen).error (by rw [run_bind, hrun])
      ((hassured w.state).error hrun)).elim

/-- **Equality with a nullable primitive.** If two operands are integers, numbers, truth values or
nullable ones of these, one of them is nullable, and the payloads are both numeric or both boolean, the
comparison is generated. Whatever the two sides are when its code is run, undefined or there, it
computes whether both are undefined or both are there and equal, or for an operator that asks for a
difference the negation. Its code has read the cells of the two sides if both are there, and none
otherwise; each load on the way is of one of these, and never from null. -/
theorem compare_nullable {op : BinaryOp} (hop : isEquality op = true)
    (hnull : s.isNullable = true ∨ t.isNullable = true) (h : s.payload.ComparesWith t.payload)
    (hx : w.Has x) (hy : w.Has y) :
    ∃ (v : ValueId) (z : Site),
      compare op (.rvalue x s) (.rvalue y t) span env w.state = .ok (.rvalue v .boolean) z.state ∧
      w ≤ z ∧ ∀ F : Function, F.Completes z.fn → ∀ (cells : Cells) (p q : Option Primitive)
        (d e : Content) (a : State), Heap.At F w.toWorld a →
        a.registers x = some d → Represents cells s p d →
        a.registers y = some e → Represents cells t q e →
        ∃ a', Heap.Steps cells F a a' ∧ Heap.At F z.toWorld a' ∧
          a'.registers v = some (.bool (isNegated op ^^ Primitive.optionEquals p q)) ∧
          a'.loads = a.loads ++ readCells p q d e ∧
          ∀ b b' ptr, Heap.Steps cells F a b → Heap.step cells F b = some b' →
            Heap.Steps cells F b' a' → b.Loads F ptr →
            ∃ cell ∈ readCells p q d e, b.registers ptr = some (.pointer (some cell)) := by
  obtain ⟨v, t', hrun⟩ : ∃ v t', sidesOperand (sideOf x s) (sideOf y t) (isNegated op) span env
      w.state = .ok v t' := sidesOperand_run h
  obtain ⟨z, rfl, hwz, -⟩ := sidesOperand_spec (l := sideOf x s) (r := sideOf y t) hx hy v t' hrun
  refine ⟨v, z, ?_, hwz, ?_⟩
  · rw [compare_eq_compareNullable hop hnull h, compareNullable_sides h, run_bind, hrun]
    rfl
  intro F hF cells p q d e a ha hd hp he hq
  have hsupplied : w.Supplies [(x, d), (y, e)] := by simp [World.Supplies, hx, hy]
  obtain ⟨z', hz', -, -, hruns⟩ := sidesOperand_performsOn List.mem_cons_self
    (List.mem_cons_of_mem _ List.mem_cons_self) hp hq h hsupplied v _ hrun
  have hfn : z'.fn = z.fn := World.fn_eq_of_state hz'
  obtain ⟨a', hruns, hknows⟩ := hruns F (hfn ▸ hF) a ha (by simp [State.Knows, hd, he])
  refine ⟨a', hruns.steps, hruns.stands.congr hz', hknows _ List.mem_cons_self, hruns.loads, ?_⟩
  intro b b' ptr hb hstep hb' hload
  obtain ⟨cell, hptr, hloads⟩ := load_of_step hstep hload
  refine ⟨cell, ?_, hptr⟩
  obtain ⟨before, hbefore⟩ := hb.loads_prefix
  obtain ⟨after, hafter⟩ := hb'.loads_prefix
  have hall : before ++ [cell] ++ after = readCells p q d e := by
    rw [hruns.loads, hloads, ← hbefore] at hafter
    simpa using hafter
  rw [← hall]
  simp

/-- A function of a nullable integer and an integer, at its head. -/
def optionalHead : GenState :=
  let m : Module := (Module.define { name := "m" } "f" [.ptr, .i32] .i1 .internal).2
  ⟨{ module := m.modifyFunction ⟨0⟩ (Function.addBlock · "entry") },
    { Frame.outside with function := ⟨0⟩, block := Function.entry, returnType := .boolean }⟩

/-- With `===` null is not equal to `5`, and no cell is read; a cell that holds `5` is equal to it, and
is read. -/
theorem compare_nullable_optional :
    ∃ (w z : Site) (v : ValueId) (cells : Cells), w.state = optionalHead ∧
      compare .strictEq (.rvalue (Function.param 0) (.nullable .int)) (.rvalue (Function.param 1) .int)
        .dummy ⟨{}, {}, .standard⟩ w.state = .ok (.rvalue v .boolean) z.state ∧
      ∀ cell : Option Nat, cell ∈ [none, some 0] → ∃ a a' : State, Heap.At z.fn w.toWorld a ∧
        a.registers (Function.param 0) = some (.pointer cell) ∧
        a.registers (Function.param 1) = some (.primitive (.word (.int 5))) ∧
        Heap.Steps cells z.fn a a' ∧ a'.registers v = some (.bool (cell == some 0)) ∧
        a'.loads = cell.toList := by
  obtain ⟨w, hw, hfn⟩ := exists_start
    (m := (Module.define { name := "m" } "f" [.ptr, .i32] .i1 .internal).2)
    (u := optionalHead.unit) rfl rfl .empty .boolean
  have hparam (i : Nat) (hi : i < 2) : w.Has (Function.param i) :=
    .inl (by rw [Function.IsParam, hfn]; exact hi)
  have hop : isEquality .strictEq = true := rfl
  have hnull : StaticType.isNullable (.nullable .int) = true ∨ StaticType.isNullable .int = true :=
    .inl rfl
  have hpayload : StaticType.ComparesWith (StaticType.payload (.nullable .int))
      (StaticType.payload .int) := .inl ⟨by simp [StaticType.payload], by simp [StaticType.payload]⟩
  obtain ⟨v, z, hrun, -, hexecuted⟩ := compare_nullable hop hnull hpayload
    (hparam 0 (by decide)) (hparam 1 (by decide))
  let five : Primitive := .word (.int 5)
  refine ⟨w, z, v, fun _ => some five, hw, hrun, fun cell hcell => ?_⟩
  have hblock : w.block = Function.entry := congrArg (·.frame.block) hw
  have hempty : w.fn.body w.block = [] := by rw [hfn, hblock]; rfl
  let a : State := {
    block := w.block, rest := z.fn.body w.block, origin := none, loads := []
    registers := fun u =>
      if u = Function.param 0 then some (.pointer cell) else some (.primitive five) }
  have ha : Heap.At z.fn w.toWorld a := ⟨rfl, by rw [hempty]; rfl⟩
  have hrest (p : Option Primitive) (hp : Represents (fun _ => some five) (.nullable .int) p
      (.pointer cell)) := hexecuted z.fn z.toWorld.completes_refl (fun _ => some five) p (some five) _
    _ a ha rfl hp rfl (.plain (p := five))
  simp only [List.mem_cons, List.not_mem_nil, or_false] at hcell
  rcases hcell with rfl | rfl
  · obtain ⟨a', hsteps, -, hv, hloads, -⟩ := hrest none .undefined
    exact ⟨a, a', ha, rfl, rfl, hsteps, hv, hloads⟩
  · obtain ⟨a', hsteps, -, hv, hloads, -⟩ := hrest (some five) (.boxed (p := five) rfl)
    exact ⟨a, a', ha, rfl, rfl, hsteps, hv, hloads⟩

end Gen

end TypedLowering
