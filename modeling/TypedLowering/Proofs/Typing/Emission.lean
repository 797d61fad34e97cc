import TypedLowering.Proofs.Typing.World

/-!
Steps on the unit and on the current function, from a typed world. What they emit has the operands
that it takes; declarations have the signatures that calls rely on, and layouts the fields.
-/
namespace TypedLowering
set_option autoImplicit false
open Ssa Ssa.Function

/-! ## Units -/

section Units

variable {p : Program} {u u' : UnitState}

theorem UnitState.Agrees.of_requests (h : u'.Agrees p) (hr : u'.requests = u.requests) :
    u.Agrees p := by
  unfold UnitState.Agrees at h ⊢
  rwa [← hr]

/-- A unit that goes on from a typed one, with what is new in it. -/
theorem UnitState.Typed.prolong (h : u.Typed) (hm : u.module.Prolongs u'.module)
    (hw : u'.module.WellTyped)
    (hs : ∀ {name id}, u'.module.lookup name = some id →
      u.module.lookup name = some id ∨ ∃ f, u'.module.function? id = some f)
    (hh : ∀ {id}, u'.arrayHeader = some id → u.arrayHeader = some id ∨
      u'.module.struct? id = some ⟨"brisk.array", [.i32, .i32, .ptr]⟩)
    (hd : ∀ {cls d}, u'.descriptors.get? cls = some d →
      u.descriptors.get? cls = some d ∨ d.LaidOut u'.module) : u'.Typed where
  wellTyped := hw
  symbols := fun hid => by
    rcases hs hid with hid | hf
    · obtain ⟨f, hf⟩ := h.symbols hid
      obtain ⟨f', hf', -⟩ := hm.function hf
      exact ⟨f', hf'⟩
    · exact hf
  header := fun hid => by
    rcases hh hid with hid | hs
    · exact hm.struct (h.header hid)
    · exact hs
  descriptors := fun hcls => by
    rcases hd hcls with hcls | hd
    · exact (h.descriptors hcls).prolong hm
    · exact hd

/-- Modules whose functions are those of a well-typed one. -/
theorem Ssa.Module.WellTyped.of_functions {m m' : Module} (h : m.WellTyped) (hm : m.Prolongs m')
    (hf : ∀ {id f}, m'.function? id = some f → m.function? id = some f) : m'.WellTyped :=
  fun _ _ hf' => (h _ _ (hf hf')).prolong hm

/-- A function is added and its name bound to it. -/
theorem UnitState.Typed.addFunction (h : u.Typed) {f : Function} (hf : f.WellTyped u.module)
    (hm : u'.module = u.module.addFunction f) (hh : u'.arrayHeader = u.arrayHeader)
    (hd : u'.descriptors = u.descriptors) : u'.Typed := by
  refine h.prolong ?_ ?_ (fun {name id} hid => ?_) (fun hid => .inl (by rwa [← hh]))
    fun hcls => .inl (by rwa [← hd])
  · rw [hm]
    exact u.module.prolongs_addFunction f
  · rw [hm]
    exact Module.wellTyped_addFunction h.wellTyped hf
  · rw [hm] at hid ⊢
    by_cases hname : f.name = name
    · subst hname
      cases (u.module.lookup_addFunction_self f).symm.trans hid
      exact .inr ⟨f, u.module.function?_addFunction_next f⟩
    · exact .inl ((Dict.get?_insert_of_ne _ _ hname).symm.trans hid)

namespace TypedUnit

/-- The worlds after `w` in which nothing has been requested. -/
theorem exists_later (w : TypedUnit p) (hr : u.requests = w.state.unit.requests)
    (hs : u.specializations = w.state.unit.specializations)
    (hm : w.state.unit.module.Prolongs u.module)
    (ht : w.state.unit.Agrees p → w.state.unit.Typed → u.Typed) :
    ∃ x : TypedUnit p, x.state = ⟨u, w.state.frame⟩ ∧ w ≤ x := by
  refine ⟨⟨⟨u, w.state.frame⟩, ?_, fun ha => ?_⟩, rfl, rfl, hm, ?_⟩
  · refine w.recorded.of_signatures hr hs fun hf => ?_
    obtain ⟨f', hf', hp⟩ := hm.function hf
    exact ⟨f', hf', hp.signature⟩
  · have ha := UnitState.Agrees.of_requests ha hr
    exact ht ha (w.typed ha)
  · show w.state.unit.requests <:+ u.requests
    exact ⟨[], hr.symm⟩

end TypedUnit

end Units

namespace Gen

variable {env : Env}

section Units

variable {p : Program} {w : TypedUnit p}

theorem modifyUnit_typed {g : UnitState → UnitState}
    (hr : (g w.state.unit).requests = w.state.unit.requests)
    (hs : (g w.state.unit).specializations = w.state.unit.specializations)
    (hm : w.state.unit.module.Prolongs (g w.state.unit).module)
    (ht : w.state.unit.Agrees p → w.state.unit.Typed → (g w.state.unit).Typed) :
    Spec env w (modifyUnit g) fun _ x => x.state.unit = g w.state.unit := by
  intro a s h
  cases h
  obtain ⟨x, hx, hwx⟩ := w.exists_later hr hs hm ht
  exact ⟨x, hx, hwx, congrArg GenState.unit hx⟩

theorem declareExternal_unit {name : String} {params : List Ty} {ret : Ty} {attrs : Attributes}
    {variadic : Bool} {span : Span} :
    Spec env w (declareExternal name params ret attrs variadic span) fun id x =>
      x.Ensures fun m => ∃ f, m.function? id = some f ∧ f.signature = (params, ret, variadic) := by
  refine .read rfl ?_
  split
  · next id m hm =>
    have hcases := Module.declare_cases hm
    refine .bind (modifyUnit_typed rfl rfl ?_ fun _ ht => ?_) fun _ x _ hx => .pure fun ha => ?_
    · rcases hcases with ⟨-, -, rfl⟩ | ⟨-, rfl, -⟩
      · exact Module.prolongs_addFunction _ _
      · exact .refl _
    · rcases hcases with ⟨-, -, rfl⟩ | ⟨-, rfl, -⟩
      · exact ht.addFunction (f := { Function.shell name params ret .external with attrs, variadic })
          (wellTyped_of_params rfl fun _ => rfl) rfl rfl rfl
      · exact ⟨ht.wellTyped, ht.symbols, ht.header, ht.descriptors⟩
    · have hmod : x.state.unit.module = m := congrArg UnitState.module hx
      have hu := x.typed ha
      rw [hmod]
      rcases hcases with ⟨-, rfl, rfl⟩ | ⟨hid, rfl, hsig⟩
      · exact ⟨_, Module.function?_addFunction_next _ _, rfl⟩
      · obtain ⟨f, hf⟩ := hu.symbols (by rw [hmod]; exact hid)
        rw [hmod] at hf
        obtain ⟨hparams, hret, hvariadic⟩ := hsig f hf
        exact ⟨f, hf, by rw [Function.signature, hparams, hret, hvariadic]⟩
  · exact .unsupported

theorem functionDecl_unit {id : FuncId} : Spec env w (functionDecl id) fun d x =>
    env.program.function? id = some d ∧ x = w := by
  refine .here fun d s h => ?_
  obtain ⟨hd, rfl⟩ := functionDecl_ok h
  exact ⟨rfl, hd, rfl⟩

theorem classDecl_unit {id : ClassId} : Spec env w (classDecl id) fun _ _ => True := by
  refine .read rfl ?_
  split
  · exact .pure trivial
  · exact .throw

/-- A struct is added. -/
theorem addStruct_typed {name : String} {fields : List Ty} {g : UnitState → UnitState}
    (hr : (g w.state.unit).requests = w.state.unit.requests)
    (hs : (g w.state.unit).specializations = w.state.unit.specializations)
    (hm : (g w.state.unit).module = (w.state.unit.module.addStruct name fields).2)
    (hh : ∀ {id}, (g w.state.unit).arrayHeader = some id → w.state.unit.arrayHeader = some id ∨
      (g w.state.unit).module.struct? id = some ⟨"brisk.array", [.i32, .i32, .ptr]⟩)
    (hd : (g w.state.unit).descriptors = w.state.unit.descriptors) :
    Spec env w (modifyUnit g) fun _ x =>
      x.Ensures fun m => m.struct? (w.state.unit.module.addStruct name fields).1
        = some ⟨name, fields⟩ := by
  have hp := w.state.unit.module.prolongs_addStruct name fields
  refine (modifyUnit_typed hr hs (by rw [hm]; exact hp) fun _ ht => ?_).mono fun _ x _ hx _ => ?_
  · refine ht.prolong (by rw [hm]; exact hp) ?_ (fun hid => .inl (by rwa [hm] at hid)) hh
      fun hcls => .inl (by rwa [← hd])
    refine ht.wellTyped.of_functions (by rw [hm]; exact hp) fun hf => ?_
    rwa [hm] at hf
  · rw [hx, hm]
    exact Module.struct?_addStruct_next _ _ _

theorem arrayHeader_unit : Spec env w arrayHeader fun id x =>
    x.Ensures fun m => m.struct? id = some ⟨"brisk.array", [.i32, .i32, .ptr]⟩ := by
  refine .read rfl ?_
  split
  · next id hid => exact .pure fun ha => (w.typed ha).header hid
  · refine .read rfl (.bind (addStruct_typed rfl rfl rfl ?_ rfl)
      fun _ x _ hx => .pure hx)
    intro id hid
    cases hid
    exact .inr (Module.struct?_addStruct_next _ _ _)

theorem addLiteralGlobal_unit {t : Ty} {data : List Constant} :
    Spec env w (addLiteralGlobal t data) fun _ _ => True := by
  have hm : w.state.unit.module.Prolongs (w.state.unit.module.addGlobal
      ("brisk.lit." ++ toString w.state.unit.module.globals.size) t data).2 :=
    .of_kept (fun hf => hf) fun hd => hd
  refine .read rfl (.bind (modifyUnit_typed rfl rfl hm fun _ ht => ?_) fun _ _ _ _ => .pure trivial)
  exact ht.prolong hm (ht.wellTyped.of_functions hm fun hf => hf) .inl .inl .inl

theorem buildDescriptor_unit {cls : ClassId} : Spec env w (buildDescriptor cls) fun d x =>
    x.Ensures d.LaidOut := by
  refine .bind classDecl_unit fun decl x _ _ => ?_
  refine .bind (Spec.mapM (P := fun (f : FieldInfo) _ => f.type.lowered .dummy = .ok f.lowered)
    (fun _ _ _ _ => id) fun f _ y _ => ?_) fun fields y _ hfields => ?_
  · exact .bind (.ofExcept (Q := fun t _ => f.type.lowered .dummy = .ok t)
      fun t ht => StaticType.lowered_span ht _) fun t _ _ ht => .pure ht
  refine .read rfl (.bind (addStruct_typed rfl rfl rfl .inl rfl) fun _ z _ hz => ?_)
  refine .bind (Spec.mapM (P := fun _ _ => True) (fun _ _ _ _ => id) fun m _ _ _ => ?_)
    fun methods z' hz' _ => .pure ?_
  · exact .bind functionDecl_unit fun _ _ _ _ => .pure trivial
  · have hstruct := TypedUnit.Ensures.prolong hz hz' fun hm hd => hm.struct hd
    exact fun ha => ⟨⟨_, hstruct ha, rfl⟩, fun hf => hfields.2 _ hf⟩

theorem descriptor_unit {cls : ClassId} : Spec env w (descriptor cls) fun d x =>
    x.Ensures d.LaidOut := by
  refine .read rfl ?_
  split
  · next d hd => exact .pure fun ha => (w.typed ha).descriptors hd
  · refine .bind buildDescriptor_unit fun d x _ hd => ?_
    have hadd : ∀ {cls' d'}, (x.state.unit.descriptors.insert cls d).get? cls' = some d' →
        x.state.unit.descriptors.get? cls' = some d' ∨ d' = d := by
      intro cls' d' h
      by_cases hcls : cls = cls'
      · subst hcls
        cases (Dict.get?_insert_self _ _ _).symm.trans h
        exact .inr rfl
      · exact .inl ((Dict.get?_insert_of_ne _ _ hcls).symm.trans h)
    refine .bind (modifyUnit_typed rfl rfl (.refl _) fun ha ht => ?_) fun _ y hy _ =>
      .pure (hd.prolong hy fun hm hd => hd.prolong hm)
    refine ⟨ht.wellTyped, ht.symbols, ht.header, fun hcls => ?_⟩
    rcases hadd hcls with hcls | rfl
    · exact ht.descriptors hcls
    · exact hd ha

end Units

/-! ## The current function -/

end Gen

/-- The worlds after `w` where only the current function has changed. -/
theorem TypedWorld.exists_map {p : Program} (w : TypedWorld p) {g : Function → Function}
    (hs : ∀ f, (g f).signature = f.signature) (hp : w.fn.Prolongs (g w.fn))
    (hw : w.Ensures fun m f => f.WellTyped m → (g f).WellTyped m) :
    ∃ x : TypedWorld p, x.state = w.state.mapFunction g ∧ x.fn = g w.fn ∧ w ≤ x := by
  have hm : w.module.Prolongs (w.module.modifyFunction w.frame.function g) :=
    Module.prolongs_modifyFunction w.current hp
  refine ⟨⟨⟨w.state.mapFunction g, w.recorded.mapFunction hs, fun ha => ?_⟩, g w.fn, ?_, fun ha => ?_⟩,
    rfl, rfl, rfl, hm, List.suffix_rfl⟩
  · have ht := w.typed ha
    have hg := hw ha (ht.wellTyped _ _ w.current)
    refine ht.prolong hm (Module.wellTyped_modifyFunction ht.wellTyped w.current hp hg) .inl .inl .inl
  · show (w.module.modifyFunction w.frame.function g).function? w.frame.function = _
    rw [Module.function?_modifyFunction, if_pos rfl, w.current]
    rfl
  · exact (w.fits ha).prolong hm hp

namespace Gen

variable {env : Env} {p : Program} {w : TypedWorld p}

/-- A step that is only taken in an open block. -/
theorem requireOpen_typed : Spec env w requireOpen fun _ x => x = w := by
  refine .read rfl ?_
  split
  · exact .throw
  · exact .pure rfl

theorem emit_typed {d : Definition} (hd : w.Ensures fun m f => d.op.WellTyped m f d.type) :
    Spec env w (emit d) fun v x => x.fn.definition? v = some d := by
  refine .bind requireOpen_typed ?_
  rintro _ _ - rfl v s h
  cases h
  obtain ⟨x, hx, hfn, hwx⟩ := TypedWorld.exists_map _ (g := fun f => f.append _ d) (fun _ => rfl)
    (prolongs_append _ _ d) fun ha hw => hw.append (hd ha)
  refine ⟨x, hx, hwx, ?_⟩
  show x.fn.definition? _ = some d
  rw [TypedWorld.state_eq, GenState.query_eq _ (TypedWorld.current _), hfn]
  exact definition?_append_next _ _ _

theorem emitSlot_typed {t : Ty} : Spec env w (emitSlot t) fun v x =>
    x.fn.definition? v = some ⟨.alloca t, .ptr⟩ := by
  intro v s h
  cases h
  obtain ⟨x, hx, hfn, hwx⟩ := w.exists_map (g := fun f => f.addSlot t) (fun _ => rfl)
    (prolongs_addSlot _ t) fun _ hw => hw.addSlot t
  refine ⟨x, hx, hwx, ?_⟩
  show x.fn.definition? _ = _
  rw [TypedWorld.state_eq, GenState.query_eq _ w.current, hfn]
  exact (definition?_define (f := w.fn) rfl _).trans (if_pos rfl)

theorem terminate_typed {t : Terminator} (ht : w.Ensures fun _ f => t.WellTyped f) :
    Spec env w (terminate t) fun _ _ => True := by
  refine .bind requireOpen_typed ?_
  rintro _ _ - rfl v s h
  cases h
  obtain ⟨x, hx, -, hwx⟩ := TypedWorld.exists_map _ (g := fun f => f.terminate _ t) (fun _ => rfl)
    ⟨rfl, id⟩ fun ha hw => hw.terminate (ht ha)
  exact ⟨x, hx, hwx, trivial⟩

theorem appendBlock_typed {word : String} : Spec env w (appendBlock word) fun _ _ => True := by
  intro b s h
  cases h
  obtain ⟨x, hx, -, hwx⟩ := w.exists_map (g := fun f => f.addBlock word) (fun _ => rfl)
    ⟨rfl, id⟩ fun _ hw => hw.addBlock word
  exact ⟨x, hx, hwx, trivial⟩

theorem modifyFrame_typed {g : Frame → Frame} (hf : (g w.frame).function = w.frame.function)
    (ht : w.Ensures fun m f => w.frame.Typed m f → (g w.frame).Typed m f) :
    Spec env w (modifyFrame g) fun _ _ => True := by
  intro a s h
  cases h
  obtain ⟨x, hx, -, hwx⟩ := w.exists_framed (g w.frame) hf fun ha => ht ha (w.fits ha)
  exact ⟨x, hx, hwx, trivial⟩

theorem positionAt_typed {b : BlockId} : Spec env w (positionAt b) fun _ _ => True :=
  modifyFrame_typed rfl fun _ h => ⟨h.scope, h.this, h.ret⟩

theorem branchIfOpen_typed {b : BlockId} : Spec env w (branchIfOpen b) fun _ _ => True := by
  refine .read rfl ?_
  split
  · exact terminate_typed fun _ => trivial
  · exact .pure trivial

/-- The jump at the end of a block, and what goes on in another. -/
theorem jump_typed {α : Type} {t : Terminator} {b : BlockId} {m : Gen α} {Q : α → TypedWorld p → Prop}
    (ht : w.Ensures fun _ f => t.WellTyped f) (hm : ∀ x, w ≤ x → Spec env x m Q) :
    Spec env w (do
      terminate t
      positionAt b
      m) Q :=
  .bind (terminate_typed ht) fun _ _ hx _ => .bind positionAt_typed fun _ y hy _ => hm y (hx.trans hy)

/-! ## Instructions -/

variable {v l r ptr : ValueId} {t : Ty}

/-- An instruction that computes no address. -/
theorem emit_carries {d : Definition} (hn : d.op.isAddress = false)
    (hd : w.Ensures fun m f => d.op.WellTyped m f d.type) :
    Spec env w (emit d) fun v x => x.Carries v d.type :=
  (emit_typed hd).mono fun _ _ _ hv _ => ⟨d, hv, rfl, hn⟩

theorem emitConst_typed {c : Constant} : Spec env w (emitConst c) fun v x => x.Carries v c.type :=
  emit_carries rfl fun _ => rfl

theorem emitI32_typed {i : Int} : Spec env w (emitI32 i) fun v x => x.Carries v .i32 :=
  emitConst_typed

theorem emitI64_typed {i : Int} : Spec env w (emitI64 i) fun v x => x.Carries v .i64 :=
  emitConst_typed

theorem emitBool_typed {b : Bool} : Spec env w (emitBool b) fun v x => x.Carries v .i1 :=
  emitConst_typed

theorem emitDouble_typed {d : Binary64} : Spec env w (emitDouble d) fun v x => x.Carries v .f64 :=
  emitConst_typed

theorem emitNull_typed : Spec env w emitNull fun v x => x.Carries v .ptr := emitConst_typed

/-- The type that is looked up is the one that an operand carries. -/
theorem query_valueType (hv : w.Carries v t) (ha : w.state.unit.Agrees p) :
    w.state.query .void (fun f => f.valueType v) = t := by
  rw [GenState.query_eq _ w.current]
  exact (hv ha).hasType.valueType_eq

theorem emitBinary_typed {op : BinOp} (ht : op.takes t = true) (hl : w.Carries l t)
    (hr : w.Carries r t) : Spec env w (emitBinary op l r) fun v x => x.Carries v t := by
  have hty := query_valueType hl
  refine .read rfl ((emit_carries rfl fun ha => ?_).mono fun v x hx hv ha => ?_)
  · show op.takes (w.state.query .void fun f => f.valueType l) = true ∧
      w.fn.HasType l (w.state.query .void fun f => f.valueType l) ∧
      w.fn.HasType r (w.state.query .void fun f => f.valueType l)
    rw [hty ha]
    exact ⟨ht, (hl ha).hasType, (hr ha).hasType⟩
  · rw [← hty ((TypedWorld.later hx).agrees ha)]
    exact hv ha

theorem emitSelect_typed {c : ValueId} (hc : w.Carries c .i1) (hl : w.Carries l t)
    (hr : w.Carries r t) : Spec env w (emitSelect c l r) fun v x => x.Carries v t := by
  have hty := query_valueType hl
  refine .read rfl ((emit_carries rfl fun ha => ?_).mono fun v x hx hv ha => ?_)
  · show w.fn.HasType c .i1 ∧
      w.fn.HasType l (w.state.query .void fun f => f.valueType l) ∧
      w.fn.HasType r (w.state.query .void fun f => f.valueType l)
    rw [hty ha]
    exact ⟨(hc ha).hasType, (hl ha).hasType, (hr ha).hasType⟩
  · rw [← hty ((TypedWorld.later hx).agrees ha)]
    exact hv ha

theorem emitLoad_typed (hp : w.Ensures fun m f => f.PointsTo m ptr t) :
    Spec env w (emit (.load t ptr)) fun v x => x.Carries v t :=
  emit_carries rfl hp

theorem emitStore_typed (hv : w.Carries v t) (hp : w.Ensures fun m f => f.PointsTo m ptr t) :
    Spec env w (emitStore v ptr) fun _ _ => True :=
  .bind (emit_typed fun ha => ⟨rfl, t, (hv ha).hasType, hp ha⟩) fun _ _ _ _ => .pure trivial

/-- The join of two branches. -/
theorem emitPhi_typed {b c : BlockId} (hl : w.Carries l t) (hr : w.Carries r t) :
    Spec env w (emit (.phi t [(l, b), (r, c)])) fun v x => x.Carries v t := by
  refine emit_carries (d := .phi t _) rfl fun ha arm harm => ?_
  simp only [List.mem_cons, List.not_mem_nil, or_false] at harm
  rcases harm with rfl | rfl
  · exact (hl ha).hasType
  · exact (hr ha).hasType

/-! ## Calls -/

section Calls

variable {params : List Ty} {ret : Ty} {variadic : Bool} {callee : FunctionId} {args : List ValueId}
  {attrs : Attributes} {span : Span}

/-- A call that passes what the signature of the callee asks for. -/
theorem emitCall_typed (hc : w.Calls callee params ret variadic)
    (hn : variadic = false → args.length = params.length)
    (ha : List.Forall₂ w.Carries (args.take params.length) params) {ty : Ty}
    (ht : w.state.unit.Agrees p → ty = ret) :
    Spec env w (emit (.call callee ty args attrs)) fun v x => x.Carries v ret := by
  refine (emit_carries rfl fun hagree => ?_).mono fun v x hx hv hagree => ?_
  · obtain ⟨f, hf, hs⟩ := hc hagree
    have hparams : f.params = params := congrArg Prod.fst hs
    have hret : f.ret = ret := congrArg (·.2.1) hs
    have hvariadic : f.variadic = variadic := congrArg (·.2.2) hs
    refine ⟨f, hf, (ht hagree).trans hret.symm, ?_, ?_⟩
    · rw [hvariadic, hparams]
      exact hn
    · rw [hparams]
      exact ha.imp fun _ _ h => (h hagree).hasType
  · rw [← ht ((TypedWorld.later hx).agrees hagree)]
    exact hv hagree

theorem callFunction_typed (hc : w.Calls callee params ret false)
    (ha : List.Forall₂ w.Carries args params) :
    Spec env w (callFunction callee args attrs) fun v x => x.Carries v ret := by
  refine .read rfl (emitCall_typed hc (fun _ => ha.length_eq) ?_ fun hagree => ?_)
  · rw [← ha.length_eq, List.take_length]
    exact ha
  · obtain ⟨f, hf, hs⟩ := hc hagree
    show w.module.functionRet callee = ret
    unfold Module.functionRet
    rw [show w.module.functions[callee.index]? = some f from hf]
    exact congrArg (·.2.1) hs

theorem declareExternal_typed {name : String} :
    Spec env w (declareExternal name params ret attrs variadic span) fun id x =>
      x.Calls id params ret variadic :=
  declareExternal_unit.of_unit

theorem declareMath_typed {name : String} {arity : Nat} :
    Spec env w (declareMath name arity attrs span) fun id x =>
      x.Calls id (List.replicate arity .f64) .f64 false :=
  declareExternal_typed

theorem functionDecl_typed {id : FuncId} : Spec env w (functionDecl id) fun d _ =>
    env.program.function? id = some d :=
  functionDecl_unit.of_unit.mono fun _ _ _ h => h.1

theorem callSupport_typed {f : SupportFunction} (hn : f.variadic = false → args.length = f.params.length)
    (ha : List.Forall₂ w.Carries (args.take f.params.length) f.params) :
    Spec env w (callSupport f args span) fun v x => x.Carries v f.ret := by
  refine .bind declareExternal_typed fun callee x hx hc => ?_
  have hargs {y : TypedWorld p} (hy : w ≤ y) :
      List.Forall₂ y.Carries (args.take f.params.length) f.params :=
    ha.imp fun _ _ => TypedWorld.carries hy
  split
  · have hraise : Spec env x.toTypedUnit
        (modifyUnit fun u => { u with gcRequired := true }) fun _ _ => True :=
      (modifyUnit_typed rfl rfl (.refl _) fun _ h =>
        ⟨h.wellTyped, h.symbols, h.header, h.descriptors⟩).mono fun _ _ _ _ => trivial
    refine .bind hraise.of_unit fun _ y hy _ => ?_
    exact emitCall_typed (TypedWorld.calls hy hc) hn (hargs (hx.trans hy)) fun _ => rfl
  · exact emitCall_typed hc hn (hargs hx) fun _ => rfl

end Calls

end Gen

end TypedLowering
