import TypedLowering.Lowering.MathObject
import TypedLowering.Proofs.Flow.World

/-!
Straight-line code. Every generator here appends instructions to the current block, each of which
reads only what can be read there; what it yields can be read from then on.
-/
namespace TypedLowering
set_option autoImplicit false
open Ssa Ssa.Function

/-! ## Instructions -/

namespace World

/-- An instruction other than a phi that reads what is there. -/
def Reads (w : World) (d : Definition) : Prop :=
  (∀ u ∈ d.op.uses, w.Has u) ∧ ∀ incoming, d.op ≠ .phi incoming

variable {w : World} {v x y z : ValueId}

@[simp, grind =] theorem reads_const {c : Constant} : w.Reads (.const c) ↔ True := by
  simp [Reads, Definition.const, Op.uses]

@[simp, grind =] theorem reads_binary {op : BinOp} {t : Ty} :
    w.Reads (.binary op x y t) ↔ w.Has x ∧ w.Has y := by
  simp [Reads, Definition.binary, Op.uses]

@[simp, grind =] theorem reads_fneg : w.Reads (.fneg x) ↔ w.Has x := by
  simp [Reads, Definition.fneg, Op.uses]

@[simp, grind =] theorem reads_icmp {p : IntPredicate} :
    w.Reads (.icmp p x y) ↔ w.Has x ∧ w.Has y := by
  simp [Reads, Definition.icmp, Op.uses]

@[simp, grind =] theorem reads_fcmp {p : FloatPredicate} :
    w.Reads (.fcmp p x y) ↔ w.Has x ∧ w.Has y := by
  simp [Reads, Definition.fcmp, Op.uses]

@[simp, grind =] theorem reads_cast {op : CastOp} {t : Ty} : w.Reads (.cast op x t) ↔ w.Has x := by
  simp [Reads, Definition.cast, Op.uses]

@[simp, grind =] theorem reads_load {t : Ty} : w.Reads (.load t x) ↔ w.Has x := by
  simp [Reads, Definition.load, Op.uses]

@[simp, grind =] theorem reads_store : w.Reads (.store x y) ↔ w.Has x ∧ w.Has y := by
  simp [Reads, Definition.store, Op.uses]

@[simp, grind =] theorem reads_fieldPtr {s : StructId} {i : Nat} :
    w.Reads (.fieldPtr x s i) ↔ w.Has x := by
  simp [Reads, Definition.fieldPtr, Op.uses]

@[simp, grind =] theorem reads_elementPtr {t : Ty} :
    w.Reads (.elementPtr x t y) ↔ w.Has x ∧ w.Has y := by
  simp [Reads, Definition.elementPtr, Op.uses]

@[simp, grind =] theorem reads_globalAddr {g : GlobalId} : w.Reads (.globalAddr g) ↔ True := by
  simp [Reads, Definition.globalAddr, Op.uses]

@[simp, grind =] theorem reads_call {callee : FunctionId} {t : Ty} {args : List ValueId}
    {attrs : Attributes} : w.Reads (.call callee t args attrs) ↔ ∀ u ∈ args, w.Has u := by
  simp [Reads, Definition.call, Op.uses]

@[simp, grind =] theorem reads_select {t : Ty} :
    w.Reads (.select x y z t) ↔ w.Has x ∧ w.Has y ∧ w.Has z := by
  simp [Reads, Definition.select, Op.uses]

end World

namespace Gen

variable {env : Env} {w : Site}

/-- A block that is still open takes what comes next. -/
theorem requireOpen_bind {α : Type} (w : Site) (m : Gen α) :
    (do requireOpen; m) env w.state = m env w.state := by
  have hopen : w.state.query false (fun f => f.isTerminated w.state.frame.block) = false := by
    rw [w.state.query_eq w.current, isTerminated_eq, w.isOpen]
    rfl
  have hrun : requireOpen env w.state = .ok () w.state := by
    show (if w.state.query false (fun f => f.isTerminated w.state.frame.block) = true
      then throw .misplaced else pure () : Gen Unit) env w.state = _
    rw [hopen]
    rfl
  show (requireOpen >>= fun _ => m) env w.state = _
  rw [run_bind, hrun]

theorem emit_appends {d : Definition} (hd : w.Reads d) : Spec env w (emit d) fun v x =>
    x.Has v ∧ v = w.fn.nextValue ∧ x.fn = w.fn.append w.block d ∧ x.block = w.block := by
  intro v s h
  rw [Site.state_eq, emit, requireOpen_bind w] at h
  cases h
  have harms : d.op.arms = [] := by
    cases ho : d.op with
    | phi incoming => exact (hd.2 incoming ho).elim
    | _ => rfl
  have hf : (w.fn.append w.block d).Flow w.heads :=
    w.flow.append w.inBlock hd.1 (by simp [harms]) fun inc hi => (hd.2 inc hi).elim
  obtain ⟨x, hx, hfn, hA, hl, hs⟩ := World.exists_map (t := fun f => f.append w.block d)
    (.refl w.toWorld) rfl hf (grows_append w.flow w.inBlock w.isOpen hd.2)
    (fun _ _ => rfl) (by simpa using w.inBlock) (fun v hv => w.flow.local_append w.inBlock hv)
  have hblock : x.block = w.block := congrArg (·.frame.block) hx
  have hopen : x.IsOpen := by
    show x.fn.exit x.block = none
    rw [hfn, hblock, exit_append]
    exact w.isOpen
  have hnext : w.state.query .absent nextValue = w.fn.nextValue := w.state.query_eq w.current
  rw [hnext]
  refine ⟨⟨x, hopen⟩, hx, ⟨hl, hs⟩, ?_, rfl, hfn, hblock⟩
  show x.fn.Known x.heads x.block _
  rw [hfn, hA, hblock]
  exact w.flow.known_append_next w.inBlock

theorem emit_spec {d : Definition} (hd : w.Reads d) : Spec env w (emit d) fun v x => x.Has v :=
  (emit_appends hd).mono fun _ _ _ h => h.1

theorem emitSlot_spec {t : Ty} : Spec env w (emitSlot t) fun v x =>
    x.Has v ∧ v = w.fn.nextValue ∧ x.fn = w.fn.addSlot t ∧ x.block = w.block := by
  intro v s h
  cases h
  obtain ⟨x, hx, hfn, hA, hl, hs⟩ := World.exists_map (t := fun f => f.addSlot t)
    (.refl w.toWorld) rfl (w.flow.addSlot t) (grows_addSlot w.flow t) (fun _ _ => rfl)
    (by simpa using w.inBlock) (fun v hv => by
      rcases hv with hv | hv
      · exact .inl hv
      · exact .inr (by rw [body_addSlot t w.flow.shaped]; exact hv))
  have hblock : x.block = w.block := congrArg (·.frame.block) hx
  have hopen : x.IsOpen := by
    show x.fn.exit x.block = none
    rw [hfn, hblock, exit_addSlot]
    exact w.isOpen
  have hnext : (CodeWorld.state w).query .absent nextValue = w.fn.nextValue :=
    w.state.query_eq w.current
  rw [hnext]
  refine ⟨⟨x, hopen⟩, hx, ⟨hl, hs⟩, ?_, rfl, hfn, hblock⟩
  show x.fn.Known x.heads x.block _
  rw [hfn, hA]
  exact w.flow.known_addSlot_next t _

theorem emitConst_spec {c : Constant} : Spec env w (emitConst c) fun v x => x.Has v :=
  emit_spec (by simp)

theorem emitI32_spec {i : Int} : Spec env w (emitI32 i) fun v x => x.Has v := emitConst_spec

theorem emitI64_spec {i : Int} : Spec env w (emitI64 i) fun v x => x.Has v := emitConst_spec

theorem emitBool_spec {b : Bool} : Spec env w (emitBool b) fun v x => x.Has v := emitConst_spec

theorem emitDouble_spec {x : Binary64} : Spec env w (emitDouble x) fun v y => y.Has v :=
  emitConst_spec

theorem emitNull_spec : Spec env w emitNull fun v x => x.Has v := emitConst_spec

theorem emitBinary_spec {op : BinOp} {l r : ValueId} (hl : w.Has l) (hr : w.Has r) :
    Spec env w (emitBinary op l r) fun v x => x.Has v :=
  .read rfl (emit_spec (by simp [hl, hr]))

theorem emitSelect_spec {c a b : ValueId} (hc : w.Has c) (ha : w.Has a) (hb : w.Has b) :
    Spec env w (emitSelect c a b) fun v x => x.Has v :=
  .read rfl (emit_spec (by simp [hc, ha, hb]))

theorem emitStore_spec {v p : ValueId} (hv : w.Has v) (hp : w.Has p) :
    Spec env w (emitStore v p) fun _ _ => True :=
  .bind (emit_spec (by simp [hv, hp])) fun _ _ _ _ => .pure trivial

end Gen

/-! ## The module -/

theorem Ssa.Module.extends_addFunction (m : Module) {f : Function} (hf : f.Settled) :
    m.Extends (m.addFunction f) fun _ => False where
  kept := by
    intro id g _ hg
    unfold function? addFunction at *
    obtain ⟨hlt, -⟩ := Array.getElem?_eq_some_iff.mp hg
    rw [Array.getElem?_push, if_neg (Nat.ne_of_lt hlt)]
    exact hg
  added := by
    intro id g _ hg
    unfold function? addFunction at *
    rw [Array.getElem?_push] at hg
    split at hg
    · cases hg
      exact .inr hf
    · exact .inl hg

theorem Ssa.Module.function?_addFunction_of_ne (m : Module) {f : Function} {id : FunctionId}
    (h : id ≠ m.nextFunction) : (m.addFunction f).function? id = m.function? id := by
  have hne : id.index ≠ m.functions.size := by
    intro he
    exact h (by cases id; simp_all [Module.nextFunction])
  simp [Module.function?, Module.addFunction, Array.getElem?_push, hne]

/-- What declaring a function comes to: it is added, or its name is bound already, and a function that
this is the name of has the same signature. -/
theorem Ssa.Module.declare_cases {m m' : Module} {name : String} {params : List Ty} {ret : Ty}
    {attrs : Attributes} {variadic : Bool} {id : FunctionId}
    (h : m.declare name params ret attrs variadic = .ok (id, m')) :
    (m.lookup name = none ∧ id = m.nextFunction ∧ m' = m.addFunction
      { Function.shell name params ret .external with attrs, variadic }) ∨
    (m.lookup name = some id ∧ m' = m ∧
      ∀ f, m.function? id = some f → f.params = params ∧ f.ret = ret ∧ f.variadic = variadic) := by
  unfold declare at h
  split at h
  · next hnone =>
    cases h
    exact .inl ⟨hnone, rfl, rfl⟩
  · next id' hid =>
    split at h
    · next hnone =>
      cases h
      refine .inr ⟨hid, rfl, fun f hf => ?_⟩
      cases hnone.symm.trans hf
    · next f hf =>
      split at h
      · next hsame =>
        cases h
        refine .inr ⟨hid, rfl, fun f' hf' => ?_⟩
        cases hf.symm.trans hf'
        simp only [Bool.and_eq_true, decide_eq_true_eq] at hsame
        exact ⟨hsame.1.1.2, hsame.1.2, hsame.2⟩
      · cases h

theorem Ssa.Module.extends_declare {m m' : Module} {name : String} {params : List Ty} {ret : Ty}
    {attrs : Attributes} {variadic : Bool} {id : FunctionId}
    (h : m.declare name params ret attrs variadic = .ok (id, m')) :
    m.Extends m' fun _ => False := by
  rcases declare_cases h with ⟨-, rfl, rfl⟩ | ⟨-, rfl, -⟩
  · exact m.extends_addFunction (.inl rfl)
  · exact .refl _ _

namespace Gen

section Outside

variable {env : Env} {w : Outside}

theorem modifyUnit_outside {g : UnitState → UnitState}
    (h : w.state.unit.module.Extends (g w.state.unit).module fun _ => False) :
    Spec env w (modifyUnit g) fun _ _ => True := by
  intro a s hs
  cases hs
  exact ⟨⟨_⟩, rfl, ⟨rfl, h⟩, trivial⟩

theorem functionDecl_outside {id : FuncId} : Spec env w (functionDecl id) fun d _ =>
    env.program.function? id = some d := by
  refine .read rfl ?_
  split
  · next d hd => exact .pure hd
  · exact .throw

theorem classDecl_outside {id : ClassId} : Spec env w (classDecl id) fun _ _ => True := by
  refine .read rfl ?_
  split
  · exact .pure trivial
  · exact .throw

theorem declareExternal_outside {name : String} {params : List Ty} {ret : Ty} {attrs : Attributes}
    {variadic : Bool} {span : Span} :
    Spec env w (declareExternal name params ret attrs variadic span) fun _ _ => True := by
  refine .read rfl ?_
  split
  · next id m hm =>
    refine .bind (modifyUnit_outside (Module.extends_declare hm)) fun _ _ _ _ => ?_
    exact .pure trivial
  · exact .unsupported

theorem arrayHeader_outside : Spec env w arrayHeader fun _ _ => True := by
  refine .read rfl ?_
  split
  · exact .pure trivial
  · refine .read rfl (.bind (modifyUnit_outside ?_) fun _ _ _ _ => .pure trivial)
    exact ⟨fun _ => id, fun _ => .inl⟩

theorem buildDescriptor_outside {cls : ClassId} :
    Spec env w (buildDescriptor cls) fun _ _ => True := by
  refine .bind classDecl_outside fun decl x _ _ => ?_
  refine .bind (Spec.mapM (P := fun _ _ => True) (fun _ _ _ _ => id) ?_) fun fields y _ _ => ?_
  · intro f _ z _
    exact .bind (.ofExcept (Q := fun _ _ => True) fun _ _ => trivial) fun _ _ _ _ => .pure trivial
  · refine .read rfl (.bind (modifyUnit_outside ⟨fun _ => id, fun _ => .inl⟩) fun _ z _ _ => ?_)
    refine .bind (Spec.mapM (P := fun _ _ => True) (fun _ _ _ _ => id) ?_) fun methods _ _ _ => ?_
    · intro m _ z' _
      exact .bind functionDecl_outside fun _ _ _ _ => .pure trivial
    · exact .pure trivial

theorem descriptor_outside {cls : ClassId} : Spec env w (descriptor cls) fun _ _ => True := by
  refine .read rfl ?_
  split
  · exact .pure trivial
  · refine .bind buildDescriptor_outside fun d x _ _ => ?_
    refine .bind (modifyUnit_outside ?_) fun _ _ _ _ => .pure trivial
    exact ⟨fun _ => id, fun _ => .inl⟩

theorem addLiteralGlobal_outside {t : Ty} {data : List Constant} :
    Spec env w (addLiteralGlobal t data) fun _ _ => True := by
  refine .read rfl (.bind (modifyUnit_outside ?_) fun _ _ _ _ => .pure trivial)
  exact ⟨fun _ => id, fun _ => .inl⟩

end Outside

variable {env : Env} {w : Site}

theorem functionDecl_spec {id : FuncId} : Spec env w (functionDecl id) fun d _ =>
    env.program.function? id = some d :=
  functionDecl_outside.outside

theorem callFunction_spec {callee : FunctionId} {args : List ValueId} {attrs : Attributes}
    (h : ∀ u ∈ args, w.Has u) : Spec env w (callFunction callee args attrs) fun v x => x.Has v :=
  .read rfl (emit_spec (by simpa using h))

theorem callSupport_spec {f : SupportFunction} {args : List ValueId} {span : Span}
    (h : ∀ u ∈ args, w.Has u) : Spec env w (callSupport f args span) fun v x => x.Has v := by
  refine .bind declareExternal_outside.outside fun callee x hx _ => ?_
  have hargs : ∀ y : Site, x ≤ y → ∀ u ∈ args, y.Has u :=
    fun y hy u hu => Site.has hy (Site.has hx (h u hu))
  split
  · refine .bind (modifyUnit_outside (w := ⟨x.state⟩) ?_).outside fun _ y hy _ => ?_
    · exact ⟨fun _ => id, fun _ => .inl⟩
    · exact emit_spec (by simpa using hargs y hy)
  · exact emit_spec (by simpa using hargs x (le_refl x))

theorem layout_spec {t : StaticType} {span : Span} : Spec env w (layout t span) fun _ _ => True :=
  .ofExcept fun _ _ => trivial

theorem declareMath_spec {symbol : String} {arity : Nat} {attrs : Attributes} {span : Span} :
    Spec env w (declareMath symbol arity attrs span) fun _ _ => True :=
  declareExternal_outside.outside

end Gen

/-! ## Values -/

/-- The operands that reading or writing a place takes. -/
def Place.operands : Place → List ValueId
  | .slot ptr _ => [ptr]
  | .field object _ _ _ => [object]
  | .element array index _ => [array, index]

/-- The operands that a value is made of. -/
def Value.operands : Value → List ValueId
  | .unit => []
  | .rvalue x _ => [x]
  | .assignable a => a.place.operands
  | .object o => o.address.toList

/-- The operands of a value can be read. -/
def World.Holds (w : World) (v : Value) : Prop := ∀ u ∈ v.operands, w.Has u

namespace World

variable {w : World}

@[simp, grind .] theorem holds_unit : w.Holds .unit := by simp [Holds, Value.operands]

@[simp, grind =] theorem holds_rvalue {x : ValueId} {t : StaticType} :
    w.Holds (.rvalue x t) ↔ w.Has x := by
  simp [Holds, Value.operands]

theorem holds_assignable {a : Assignable} :
    w.Holds (.assignable a) ↔ ∀ u ∈ a.place.operands, w.Has u := Iff.rfl

theorem holds_object {o : ObjectRef} :
    w.Holds (.object o) ↔ ∀ a, o.address = some a → w.Has a := by
  simp [Holds, Value.operands]

end World

theorem Site.holds {w x : Site} (h : w ≤ x) {v : Value} (hv : w.Holds v) : x.Holds v :=
  fun u hu => Site.has h (hv u hu)

namespace Gen

variable {env : Env} {w : Site}

theorem arrayLength_spec {array : ValueId} (ha : w.Has array) :
    Spec env w (arrayLength array) fun v x => x.Has v := by
  refine .bind arrayHeader_outside.outside fun header x hx _ => ?_
  refine .bind (emit_spec ?_) fun ptr y _ hp => emit_spec (by simpa using hp)
  simpa using Site.has hx ha

theorem elementAddress_spec {l : ArrayLayout} {array index : ValueId} (ha : w.Has array)
    (hi : w.Has index) : Spec env w (elementAddress l array index) fun v x => x.Has v := by
  refine .bind arrayHeader_outside.outside fun header x hx _ => ?_
  refine .bind (emit_spec (by simpa using Site.has hx ha)) fun dataPtr y hy hp => ?_
  refine .bind (emit_spec (by simpa using hp)) fun data z hz hd => ?_
  exact emit_spec (by simpa using ⟨hd, Site.has (hx.trans (hy.trans hz)) hi⟩)

theorem loadElement_spec {l : ArrayLayout} {array index : ValueId} {span : Span}
    (ha : w.Has array) (hi : w.Has index) :
    Spec env w (loadElement l array index span) fun v x => x.Has v := by
  refine .read rfl ?_
  split
  · exact callSupport_spec (by simp [ha, hi])
  · exact .bind (elementAddress_spec ha hi) fun ptr x _ hp => emit_spec (by simpa using hp)

theorem storeElement_spec {l : ArrayLayout} {array index value : ValueId} {span : Span}
    (ha : w.Has array) (hi : w.Has index) (hv : w.Has value) :
    Spec env w (storeElement l array index value span) fun _ _ => True := by
  refine .read rfl ?_
  split
  · exact .bind (callSupport_spec (by simp [ha, hi, hv])) fun _ _ _ _ => .pure trivial
  · exact .bind (elementAddress_spec ha hi) fun ptr x hx hp => emitStore_spec (Site.has hx hv) hp

theorem load_spec {a : Assignable} {span : Span} (ha : w.Holds (.assignable a)) :
    Spec env w (load a span) fun v x => x.Has v := by
  unfold load
  have h := World.holds_assignable.mp ha
  cases hp : a.place with
  | slot ptr lowered =>
    rw [hp] at h
    exact emit_spec (by simpa [Place.operands] using h)
  | field object struct index lowered =>
    rw [hp] at h
    exact .bind (emit_spec (by simpa [Place.operands] using h)) fun ptr x _ hx =>
      emit_spec (by simpa using hx)
  | element array index l =>
    rw [hp] at h
    simp only [Place.operands, List.mem_cons, List.not_mem_nil, or_false, forall_eq_or_imp,
      forall_eq] at h
    exact loadElement_spec h.1 h.2

theorem store_spec {a : Assignable} {x : ValueId} {span : Span} (ha : w.Holds (.assignable a))
    (hx : w.Has x) : Spec env w (store a x span) fun _ _ => True := by
  unfold store
  have h := World.holds_assignable.mp ha
  cases hp : a.place with
  | slot ptr lowered =>
    rw [hp] at h
    exact emitStore_spec hx (by simpa [Place.operands] using h)
  | field object struct index lowered =>
    rw [hp] at h
    exact .bind (emit_spec (by simpa [Place.operands] using h)) fun ptr y hy hp =>
      emitStore_spec (Site.has hy hx) hp
  | element array index l =>
    rw [hp] at h
    simp only [Place.operands, List.mem_cons, List.not_mem_nil, or_false, forall_eq_or_imp,
      forall_eq] at h
    exact storeElement_spec h.1 h.2 hx

theorem objectAt_spec {address : ValueId} {t : StaticType} {span : Span} (ha : w.Has address) :
    Spec env w (objectAt address t span) fun o x => x.Holds (.object o) := by
  unfold objectAt
  split
  · refine .bind descriptor_outside.outside fun d x hx _ => .pure ?_
    exact World.holds_object.mpr fun a e => by cases e; exact Site.has hx ha
  · refine .bind (.ofExcept (Q := fun _ _ => True) fun _ _ => trivial) fun l x hx _ => .pure ?_
    exact World.holds_object.mpr fun a e => by cases e; exact Site.has hx ha
  · exact .pure (World.holds_object.mpr fun a e => by cases e)
  · exact .internal

theorem objectOperand_spec {o : ObjectRef} (ho : w.Holds (.object o)) :
    Spec env w (objectOperand o) fun v x => x.Has v := by
  unfold objectOperand
  split
  · next a ha => exact .pure (World.holds_object.mp ho a ha)
  · exact emitNull_spec

theorem requireAddress_spec {o : ObjectRef} {span : Span} (ho : w.Holds (.object o)) :
    Spec env w (requireAddress o span) fun v x => x.Has v := by
  unfold requireAddress
  split
  · next a ha => exact .pure (World.holds_object.mp ho a ha)
  · exact .internal

theorem operand_spec {v : Value} {span : Span} (hv : w.Holds v) :
    Spec env w (operand v span) fun x y => y.Has x := by
  cases v with
  | unit => exact .internal
  | rvalue x t => exact .pure (by simpa using hv)
  | assignable a => exact load_spec hv
  | object o => exact objectOperand_spec hv

theorem valueOf_spec {v : ValueId} {t : StaticType} {span : Span} (hv : w.Has v) :
    Spec env w (valueOf v t span) fun r x => x.Holds r := by
  unfold valueOf
  split
  · exact .pure (by simp)
  iterate 3 exact .bind (objectAt_spec hv) fun o x _ ho => .pure ho
  all_goals exact .pure (by simpa using hv)

theorem intoObject_spec {v : Value} {span : Span} (hv : w.Holds v) :
    Spec env w (intoObject v span) fun o x => x.Holds (.object o) := by
  unfold intoObject
  split
  · exact .pure hv
  · split
    · exact .bind (operand_spec hv) fun x y _ hx => objectAt_spec hx
    · exact .unsupported

/-! ## Conversions -/

theorem boxValue_spec {v : Value} {target : StaticType} {span : Span} (hv : w.Holds v) :
    Spec env w (boxValue v target span) fun r x => x.Holds r := by
  refine .bind layout_spec fun inner x hx _ => ?_
  refine .bind (operand_spec (Site.holds hx hv)) fun a y hy ha => ?_
  have boxed {t : Ty} : Spec env y (do
      return Value.rvalue (← callSupport (.box t) [a] span) target) fun r z => z.Holds r :=
    .bind (callSupport_spec (by simpa using ha)) fun b z _ hb => .pure (by simpa using hb)
  cases inner with
  | ptr => exact .pure (by simpa using ha)
  | i1 => exact boxed
  | i32 => exact boxed
  | f64 => exact boxed
  | i64 => exact .unsupported
  | void => exact .unsupported

theorem unboxValue_spec {v : Value} {inner : StaticType} {span : Span} (hv : w.Holds v) :
    Spec env w (unboxValue v inner span) fun r x => x.Holds r := by
  refine .bind layout_spec fun lowered x hx _ => ?_
  refine .bind (operand_spec (Site.holds hx hv)) fun cell y hy hc => ?_
  split
  · exact valueOf_spec hc
  · exact .bind (emit_spec (by simpa using hc)) fun a z _ ha => valueOf_spec ha

theorem noConversion_spec {α : Type} {explicit : Bool} {source target : StaticType} {span : Span}
    {Q : α → Site → Prop} : Spec env w (noConversion explicit source target span) Q := .unsupported

theorem convertFrom_spec {explicit : Bool} {v : Value} {span : Span} {toInner : Gen Value}
    {target : StaticType} (hv : w.Holds v) (hi : Spec env w toInner fun r x => x.Holds r) :
    Spec env w (convertFrom explicit v span toInner target) fun r x => x.Holds r := by
  have casted {op : CastOp} {t : Ty} : Spec env w (do
      return Value.rvalue (← emit (.cast op (← operand v span) t)) target) fun r x => x.Holds r :=
    .bind (operand_spec hv) fun a x _ ha => .bind (emit_spec (by simpa using ha)) fun b y _ hb =>
      .pure (by simpa using hb)
  unfold convertFrom
  split
  · exact casted
  · split
    · exact casted
    · exact noConversion_spec
  · split
    · exact casted
    · exact noConversion_spec
  · split
    · refine .bind (operand_spec hv) fun a x _ ha => ?_
      refine .bind emitI32_spec fun zero y hy hz => ?_
      refine .bind (emit_spec (by simpa using ⟨Site.has hy ha, hz⟩)) fun b z _ hb => ?_
      exact .pure (by simpa using hb)
    · exact noConversion_spec
  · split
    · exact unboxValue_spec hv
    · exact noConversion_spec
  · exact .bind hi fun r x _ hr => boxValue_spec hr
  · exact noConversion_spec

/-- Nothing is converted where the types agree. -/
theorem convert_self {explicit : Bool} {v : Value} {span : Span} {t : StaticType}
    (h : v.type = t) :
    convert explicit v span t = pure v := by
  cases t <;> simp [convert, h]

theorem convert_spec {explicit : Bool} {v : Value} {span : Span} {target : StaticType}
    (hv : w.Holds v) : Spec env w (convert explicit v span target) fun r x => x.Holds r := by
  induction target with
  | nullable inner ih =>
    unfold convert
    split
    · exact .pure hv
    · exact convertFrom_spec hv ih
  | _ =>
    unfold convert
    split
    · exact .pure hv
    · exact convertFrom_spec hv (.pure hv)

theorem castImplicit_spec {v : Value} {target : StaticType} {span : Span} (hv : w.Holds v) :
    Spec env w (castImplicit v target span) fun r x => x.Holds r := convert_spec hv

theorem castExplicit_spec {v : Value} {target : StaticType} {span : Span} (hv : w.Holds v) :
    Spec env w (castExplicit v target span) fun r x => x.Holds r := convert_spec hv

theorem castOperand_spec {v : Value} {target : StaticType} {span : Span} (hv : w.Holds v) :
    Spec env w (castOperand v target span) fun r x => x.Has r :=
  .bind (castImplicit_spec hv) fun _ _ _ hr => operand_spec hr

theorem assign_spec {a : Assignable} {v : Value} {span : Span} (ha : w.Holds (.assignable a))
    (hv : w.Holds v) : Spec env w (assign a v span) fun r x => x.Holds r := by
  refine .bind (castOperand_spec hv) fun x y hy hx => ?_
  refine .bind (store_spec (Site.holds hy ha) hx) fun _ z hz _ => ?_
  exact valueOf_spec (Site.has hz hx)

/-! ## Operands of nodes -/

/-- A node that is generated as an expression: it leaves the scope and the loops alone, ends in an
open block and yields a value that can be read there. -/
def Yields (env : Env) (generate : Generate) (n : Node) : Prop :=
  ∀ w : Site, Spec env w (generate n) fun v x => x.Holds v

variable {generate : Generate}

theorem generateOperand_spec {n : Node} {t : StaticType} (hn : Yields env generate n) :
    Spec env w (generateOperand generate n t) fun v x => x.Has v :=
  .bind (hn w) fun _ _ _ hv => castOperand_spec hv

theorem operands_spec {args : List Node} {t : StaticType}
    (h : ∀ a ∈ args, Yields env generate a) :
    Spec env w (args.mapM fun a => generateOperand generate a t) fun vs x => ∀ v ∈ vs, x.Has v :=
  (Spec.mapM (P := fun v x => x.Has v) (fun _ _ _ hxy hv => Site.has hxy hv) fun a ha _ _ =>
    generateOperand_spec (h a ha)).mono fun _ _ _ hv => hv.2

/-! ## Members of `Math` -/

theorem emitPower_spec {base exponent : ValueId} {span : Span} (hb : w.Has base)
    (he : w.Has exponent) : Spec env w (emitPower base exponent span) fun v x => x.Has v := by
  refine .read rfl (.bind declareMath_spec fun pow x hx _ => ?_)
  exact callFunction_spec (by simp [Site.has hx hb, Site.has hx he])

theorem emitRound_spec {a : ValueId} {span : Span} (ha : w.Has a) :
    Spec env w (emitRound a span) fun v x => x.Has v := by
  refine .read rfl (.bind declareMath_spec fun floor x₁ h₁ _ => ?_)
  refine .bind (callFunction_spec (by simp [Site.has h₁ ha])) fun down x₂ h₂ hdown => ?_
  refine .bind (emitBinary_spec (Site.has (h₁.trans h₂) ha) hdown) fun fraction x₃ h₃ hfrac => ?_
  refine .bind emitDouble_spec fun half x₄ h₄ hhalf => ?_
  refine .bind (emit_spec (by simpa using ⟨Site.has h₄ hfrac, hhalf⟩)) fun up? x₅ h₅ hup? => ?_
  refine .bind emitDouble_spec fun one x₆ h₆ hone => ?_
  have hdown' : x₆.Has down := Site.has (h₃.trans (h₄.trans (h₅.trans h₆))) hdown
  refine .bind (emitBinary_spec hdown' hone) fun up x₇ h₇ hup => ?_
  exact emitSelect_spec (Site.has (h₆.trans h₇) hup?) hup (Site.has h₇ hdown')

theorem mathField_spec {member : String} {span : Span} :
    Spec env w (mathField member span) fun v x => x.Holds v := by
  unfold mathField
  split
  · exact .bind emitDouble_spec fun v x _ hv => .pure (by simpa using hv)
  · exact .unsupported
  · exact .fail

theorem mathOperands_spec {member : String} {args : List Node} {arity : Nat} {span : Span}
    (h : ∀ a ∈ args, Yields env generate a) :
    Spec env w (mathOperands generate member args arity span) fun vs x => ∀ v ∈ vs, x.Has v := by
  unfold mathOperands
  split
  · exact .fail
  · split
    · exact .unsupported
    · exact operands_spec h

theorem mathCallOperand_spec {member : String} {args : List Node} {span : Span}
    (h : ∀ a ∈ args, Yields env generate a) :
    Spec env w (mathCallOperand generate member args span) fun v x => x.Has v := by
  unfold mathCallOperand
  split
  · refine .bind (mathOperands_spec h) fun operands x _ ho => .read rfl ?_
    refine .bind declareMath_spec fun callee y hy _ => ?_
    exact callFunction_spec fun u hu => Site.has hy (ho u hu)
  · refine .bind (mathOperands_spec h) fun operands x _ ho => ?_
    refine .bind declareMath_spec fun callee y hy _ => ?_
    exact callFunction_spec fun u hu => Site.has hy (ho u hu)
  · refine .bind (operands_spec h) fun operands x _ ho => ?_
    split
    · exact emitDouble_spec
    · next first rest =>
      refine .read rfl (.bind declareMath_spec fun callee y hy _ => ?_)
      refine Spec.foldlM (Site.has hy (ho first (by simp))) fun next hn acc z hz hacc => ?_
      have hnext : z.Has next := Site.has (hy.trans hz) (ho next (by simp [hn]))
      exact callFunction_spec (by simp [hacc, hnext])
  · refine .bind (mathOperands_spec h) fun operands x _ ho => ?_
    split
    · exact emitRound_spec (ho _ (by simp))
    · exact .throw
  · exact .bind (mathOperands_spec h) fun _ x _ _ => callSupport_spec (by simp)
  · exact .unsupported
  · exact .fail

theorem mathCall_spec {member : String} {args : List Node} {span : Span}
    (h : ∀ a ∈ args, Yields env generate a) :
    Spec env w (mathCall generate member args span) fun v x => x.Holds v :=
  .bind (mathCallOperand_spec h) fun _ _ _ hv => .pure (by simpa using hv)

end Gen

end TypedLowering
