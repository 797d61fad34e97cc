import TypedLowering.Lowering.Literal
import TypedLowering.Lowering.MathObject
import TypedLowering.Proofs.Lowering.Spec

/-!
Runs of code generation, whichever way they end. `Leads` says what holds after a run that succeeds
and after one that fails; `Upholds` is the case of an invariant.

Most steps of code generation do one of five things: they look at the state or change what the unit
holds besides functions (`Aside`), they emit an instruction, add a stack slot, declare a function, or
do one step after the other. `Linear` collects the properties of computations that all of these have,
and the lemmas below it say that straight-line code has them too.
-/
namespace TypedLowering
set_option autoImplicit false
open Ssa

namespace Gen

variable {α β : Type} {env : Env} {s : GenState}

/-! ## How runs end -/

/-- A run of `m` from `s` ends with `Q` if it succeeds and with `E` if it fails. -/
def Leads (env : Env) (s : GenState) (m : Gen α) (Q : α → GenState → Prop)
    (E : Failure → GenState → Prop) : Prop :=
  match m env s with
  | .ok a s' => Q a s'
  | .error e s' => E e s'

namespace Leads

variable {m : Gen α} {f : α → Gen β} {Q Q' : α → GenState → Prop} {R : β → GenState → Prop}
  {E E' : Failure → GenState → Prop}

theorem ok (h : Leads env s m Q E) {a : α} {s' : GenState} (hm : m env s = .ok a s') : Q a s' := by
  unfold Leads at h
  rwa [hm] at h

theorem error (h : Leads env s m Q E) {e : Failure} {s' : GenState} (hm : m env s = .error e s') :
    E e s' := by
  unfold Leads at h
  rwa [hm] at h

theorem intro (ho : ∀ a s', m env s = .ok a s' → Q a s')
    (he : ∀ e s', m env s = .error e s' → E e s') : Leads env s m Q E := by
  unfold Leads
  cases hm : m env s with
  | ok a s' => exact ho a s' hm
  | error e s' => exact he e s' hm

theorem of_ok {a : α} {s' : GenState} (hm : m env s = .ok a s') (hq : Q a s') :
    Leads env s m Q E := by
  unfold Leads
  rwa [hm]

theorem of_error {e : Failure} {s' : GenState} (hm : m env s = .error e s') (he : E e s') :
    Leads env s m Q E := by
  unfold Leads
  rwa [hm]

theorem mono (h : Leads env s m Q E) (hq : ∀ a s', Q a s' → Q' a s')
    (he : ∀ e s', E e s' → E' e s') : Leads env s m Q' E' :=
  intro (fun a s' hm => hq a s' (h.ok hm)) fun e s' hm => he e s' (h.error hm)

theorem and (h : Leads env s m Q E) (h' : Leads env s m Q' E') :
    Leads env s m (fun a s' => Q a s' ∧ Q' a s') fun e s' => E e s' ∧ E' e s' :=
  intro (fun _ _ hm => ⟨h.ok hm, h'.ok hm⟩) fun _ _ hm => ⟨h.error hm, h'.error hm⟩

protected theorem pure {a : α} (h : Q a s) : Leads env s (pure a) Q E := h

protected theorem bind (hm : Leads env s m Q E)
    (hf : ∀ a s', m env s = .ok a s' → Q a s' → Leads env s' (f a) R E) :
    Leads env s (m >>= f) R E := by
  cases h : m env s with
  | ok a s' =>
    have hb : (m >>= f) env s = f a env s' := by rw [run_bind, h]
    have hr := hf a s' h (hm.ok h)
    unfold Leads at hr ⊢
    rwa [hb]
  | error e s' =>
    have hb : (m >>= f) env s = .error e s' := by rw [run_bind, h]
    exact of_error hb (hm.error h)

theorem ofExcept {x : Except LoweringError α} (hq : ∀ a, x = .ok a → Q a s)
    (he : ∀ e, x = .error e → E (.reported e) s) : Leads env s (ofExcept x) Q E := by
  cases x with
  | ok a => exact hq a rfl
  | error e => exact he e rfl

/-- A run that leads to one outcome has this outcome. -/
theorem run_eq {x : EStateM.Result Failure GenState α}
    (h : Leads env s m (fun a s' => x = .ok a s') fun e s' => x = .error e s') : m env s = x := by
  cases hm : m env s with
  | ok a s' => exact (h.ok hm).symm
  | error e s' => exact (h.error hm).symm

/-- A first step that only looks something up. -/
theorem read {a : α} (hm : m env s = .ok a s) (h : Leads env s (f a) R E) :
    Leads env s (m >>= f) R E := by
  have hb : (m >>= f) env s = f a env s := by rw [run_bind, hm]
  unfold Leads at h ⊢
  rwa [hb]

theorem functionDecl {id : FuncId} {Q : FunctionDecl → GenState → Prop}
    (hq : ∀ d, env.program.function? id = some d → Q d s)
    (he : env.program.function? id = none → E .dangling s) :
    Leads env s (functionDecl id) Q E := by
  refine read rfl ?_
  split
  · next d hd => exact hq d hd
  · next hd => exact he hd

theorem requireOpen {Q : Unit → GenState → Prop} (hq : Q () s) (he : E .misplaced s) :
    Leads env s requireOpen Q E := by
  refine read rfl ?_
  split
  · exact of_error rfl he
  · exact .pure hq

theorem emit {d : Definition} {Q : ValueId → GenState → Prop}
    (hq : Q (s.query .absent Function.nextValue)
      (s.mapFunction fun f => f.append s.frame.block d)) (he : E .misplaced s) :
    Leads env s (emit d) Q E :=
  (requireOpen (Q := fun _ s' => s = s') rfl he).bind fun _ _ _ hs => hs ▸ .of_ok rfl hq

theorem terminate {t : Terminator} {Q : Unit → GenState → Prop}
    (hq : Q () (s.mapFunction fun f => f.terminate s.frame.block t)) (he : E .misplaced s) :
    Leads env s (terminate t) Q E :=
  (requireOpen (Q := fun _ s' => s = s') rfl he).bind fun _ _ _ hs => hs ▸ .of_ok rfl hq

end Leads

/-- `m` keeps `I`, and if it fails then with `E`. -/
def Upholds (env : Env) (I : GenState → Prop) (E : Failure → GenState → Prop) (α : Type)
    (m : Gen α) : Prop :=
  ∀ s, I s → Leads env s m (fun _ => I) E

/-! ## Steps that concern no function -/

end Gen

/-- A state with the frame and the functions of another, in which the same functions have been
requested. -/
structure GenState.Alike (s s' : GenState) : Prop where
  frame : s'.frame = s.frame
  functions : s'.unit.module.functions = s.unit.module.functions
  symbols : s'.unit.module.symbols = s.unit.module.symbols
  specializations : s'.unit.specializations = s.unit.specializations
  generated : s'.unit.generated = s.unit.generated
  cacheHits : s'.unit.cacheHits = s.unit.cacheHits
  requests : s'.unit.requests = s.unit.requests

namespace GenState.Alike

theorem refl (s : GenState) : s.Alike s := ⟨rfl, rfl, rfl, rfl, rfl, rfl, rfl⟩

theorem trans {s s' s'' : GenState} (h : s.Alike s') (h' : s'.Alike s'') : s.Alike s'' where
  frame := h'.frame.trans h.frame
  functions := h'.functions.trans h.functions
  symbols := h'.symbols.trans h.symbols
  specializations := h'.specializations.trans h.specializations
  generated := h'.generated.trans h.generated
  cacheHits := h'.cacheHits.trans h.cacheHits
  requests := h'.requests.trans h.requests

theorem function? {s s' : GenState} (h : s.Alike s') (id : FunctionId) :
    s'.unit.module.function? id = s.unit.module.function? id := by
  unfold Module.function?
  rw [h.functions]

end GenState.Alike

namespace Gen

variable {α β : Type} {env : Env} {s : GenState}

/-- A step that leaves the frame and all functions alone. It may fail as programs are rejected. -/
def Aside (env : Env) (m : Gen α) : Prop :=
  ∀ s, Leads env s m (fun _ => s.Alike) fun e s' => e ≠ .misplaced ∧ s.Alike s'

namespace Aside

theorem here {m : Gen α} (h : ∀ s, ∃ a, m env s = .ok a s) : Aside env m := by
  intro s
  obtain ⟨a, ha⟩ := h s
  exact .of_ok ha (.refl s)

protected theorem pure (a : α) : Aside env (pure a) := here fun _ => ⟨a, rfl⟩

protected theorem throw {e : Failure} (he : e ≠ .misplaced) : Aside env (throw e : Gen α) :=
  fun s => .of_error rfl ⟨he, .refl s⟩

/-- After a step that left the frame and all functions alone this time. -/
theorem after {m : Gen α} {f : α → Gen β}
    (hm : Leads env s m (fun _ => s.Alike) fun e s' => e ≠ .misplaced ∧ s.Alike s')
    (hf : ∀ a, Aside env (f a)) :
    Leads env s (m >>= f) (fun _ => s.Alike) fun e s' => e ≠ .misplaced ∧ s.Alike s' :=
  hm.bind fun a s₁ _ h₁ =>
    (hf a s₁).mono (fun _ _ h₂ => h₁.trans h₂) fun _ _ h₂ => ⟨h₂.1, h₁.trans h₂.2⟩

protected theorem bind {m : Gen α} {f : α → Gen β} (hm : Aside env m) (hf : ∀ a, Aside env (f a)) :
    Aside env (m >>= f) :=
  fun s => after (hm s) hf

theorem mapM {f : α → Gen β} (hf : ∀ a, Aside env (f a)) : ∀ l : List α, Aside env (l.mapM f)
  | [] => .pure []
  | a :: l => by
    rw [List.mapM_cons]
    exact .bind (hf a) fun b => .bind (mapM hf l) fun bs => .pure (b :: bs)

theorem fail {cause : Cause} {span : Span} : Aside env (fail cause span : Gen α) :=
  .throw (by simp)

theorem unsupported {op type : String} {span : Span} :
    Aside env (unsupported op type span : Gen α) := fail

theorem internal {message : String} {span : Span} : Aside env (internal message span : Gen α) :=
  fail

theorem ofExcept (x : Except LoweringError α) : Aside env (ofExcept x) := by
  cases x with
  | ok a => exact .pure a
  | error e => exact .throw (by simp)

theorem program : Aside env program := here fun _ => ⟨_, rfl⟩

theorem config : Aside env config := here fun _ => ⟨_, rfl⟩

theorem frame : Aside env frame := here fun _ => ⟨_, rfl⟩

theorem currentBlock : Aside env currentBlock := here fun _ => ⟨_, rfl⟩

theorem isTerminated : Aside env isTerminated := here fun _ => ⟨_, rfl⟩

theorem valueType (v : ValueId) : Aside env (valueType v) := here fun _ => ⟨_, rfl⟩

theorem resolveType (t : StaticType) : Aside env (resolveType t) := here fun _ => ⟨_, rfl⟩

theorem nodeType (n : Node) : Aside env (nodeType n) := resolveType _

theorem layout (t : StaticType) (span : Span) : Aside env (layout t span) := ofExcept _

theorem functionDecl (id : FuncId) : Aside env (functionDecl id) := by
  refine .bind program fun p => ?_
  split
  · exact .pure _
  · exact .throw (by simp)

theorem classDecl (id : ClassId) : Aside env (classDecl id) := by
  refine .bind program fun p => ?_
  split
  · exact .pure _
  · exact .throw (by simp)

theorem wrongForm {kind : SyntaxKind} {n : Node} : Aside env (wrongForm kind n : Gen α) := internal

theorem raiseCollector : Aside env (modifyUnit fun u => { u with gcRequired := true }) :=
  fun _ => .of_ok rfl ⟨rfl, rfl, rfl, rfl, rfl, rfl, rfl⟩

theorem arrayHeader : Aside env arrayHeader := by
  intro s
  refine .read rfl ?_
  split
  · exact .pure (.refl s)
  · exact .of_ok rfl ⟨rfl, rfl, rfl, rfl, rfl, rfl, rfl⟩

theorem addLiteralGlobal (t : Ty) (data : List Constant) : Aside env (addLiteralGlobal t data) :=
  fun _ => .of_ok rfl ⟨rfl, rfl, rfl, rfl, rfl, rfl, rfl⟩

theorem buildDescriptor (cls : ClassId) : Aside env (buildDescriptor cls) := by
  refine .bind (classDecl cls) fun decl => ?_
  refine .bind (mapM (fun f => .bind (layout _ _) fun t => .pure _) _) fun fields => ?_
  intro s
  refine .read rfl ?_
  -- the new module is that of `s` with a struct more, so this is no step that any state allows
  have added {name : String} {fields : List Ty} : Leads env s
      (modifyUnit fun u => { u with module := (s.unit.module.addStruct name fields).2 })
      (fun _ => s.Alike) fun e s' => e ≠ .misplaced ∧ s.Alike s' :=
    .of_ok rfl ⟨rfl, rfl, rfl, rfl, rfl, rfl, rfl⟩
  refine after added fun _ => ?_
  exact .bind (mapM (fun m => .bind (functionDecl m) fun d => .pure _) _) fun methods => .pure _

theorem descriptor (cls : ClassId) : Aside env (descriptor cls) := by
  have hbuild : Aside env (do
      let d ← Gen.buildDescriptor cls
      modifyUnit fun u => { u with descriptors := u.descriptors.insert cls d }
      return d) :=
    .bind (buildDescriptor cls) fun d =>
      .bind (fun _ => .of_ok rfl ⟨rfl, rfl, rfl, rfl, rfl, rfl, rfl⟩) fun _ => .pure d
  intro s
  refine .read rfl ?_
  split
  · exact .pure (.refl s)
  · exact hbuild s

theorem objectAt (address : ValueId) (t : StaticType) (span : Span) :
    Aside env (objectAt address t span) := by
  unfold Gen.objectAt
  split
  · exact .bind (descriptor _) fun d => .pure _
  · exact .bind (ofExcept _) fun l => .pure _
  · exact .pure _
  · exact internal

theorem valueOf (x : ValueId) (t : StaticType) (span : Span) : Aside env (valueOf x t span) := by
  unfold Gen.valueOf
  split
  · exact .pure _
  iterate 3 exact .bind (objectAt _ _ _) fun o => .pure _
  all_goals exact .pure _

theorem requireAddress (o : ObjectRef) (span : Span) : Aside env (requireAddress o span) := by
  unfold Gen.requireAddress
  split
  · exact .pure _
  · exact internal

end Aside

/-! ## Straight-line code -/

/-- A call of the support library declares the function, notes that there has to be a collector if
memory is requested, and is emitted then. -/
theorem callSupport_of {P : (α : Type) → Gen α → Prop} {f : SupportFunction} {span : Span}
    (bind : ∀ {α β : Type} {m : Gen α} {k : α → Gen β}, P α m → (∀ a, P β (k a)) → P β (m >>= k))
    (declare : P _ (declareExternal f.symbol f.params f.ret f.attributes f.variadic span))
    (raise : P _ (modifyUnit fun u => { u with gcRequired := true }))
    (emit : ∀ d, P _ (emit d)) (args : List ValueId) : P _ (callSupport f args span) := by
  refine bind declare fun callee => ?_
  split
  · exact bind raise fun _ => emit _
  · exact emit _

/-- A property of computations that every step has which leaves functions alone, emits, adds a slot
or declares a function, and every sequence of computations that have it. -/
structure Linear (env : Env) (I : GenState → Prop) (P : (α : Type) → Gen α → Prop) : Prop where
  aside : ∀ {α : Type} {m : Gen α}, Aside env m → P α m
  bind : ∀ {α β : Type} {m : Gen α} {f : α → Gen β}, P α m →
    (∀ a, (∃ s s', I s ∧ m env s = .ok a s') → P β (f a)) → P β (m >>= f)
  emit : ∀ d, P ValueId (emit d)
  emitSlot : ∀ t, P ValueId (emitSlot t)
  declare : ∀ name params ret attrs variadic span,
    P FunctionId (declareExternal name params ret attrs variadic span)

namespace Linear

variable {I : GenState → Prop} {P : (α : Type) → Gen α → Prop}

theorem seq (h : Linear env I P) {m : Gen α} {f : α → Gen β} (hm : P α m) (hf : ∀ a, P β (f a)) :
    P β (m >>= f) :=
  h.bind hm fun a _ => hf a

theorem pure (h : Linear env I P) (a : α) : P α (pure a) := h.aside (.pure a)

theorem map (h : Linear env I P) {m : Gen α} (hm : P α m) (g : α → β) :
    P β (do return g (← m)) :=
  h.seq hm fun a => h.pure (g a)

theorem mapM (h : Linear env I P) {f : α → Gen β} :
    ∀ {l : List α}, (∀ a ∈ l, P β (f a)) → P (List β) (l.mapM f)
  | [], _ => h.pure []
  | a :: l, hf => by
    rw [List.mapM_cons]
    refine h.seq (hf a List.mem_cons_self) fun b => ?_
    exact h.seq (h.mapM fun a ha => hf a (List.mem_cons_of_mem _ ha)) fun bs => h.pure _

theorem foldlM (h : Linear env I P) {f : β → α → Gen β} (hf : ∀ b a, P β (f b a)) :
    ∀ (l : List α) (b : β), P β (l.foldlM f b)
  | [], b => h.pure b
  | a :: l, b => by
    rw [List.foldlM_cons]
    exact h.seq (hf b a) fun b' => h.foldlM hf l b'

/-! ### Instructions -/

theorem emitConst (h : Linear env I P) (c : Constant) : P _ (emitConst c) := h.emit _

theorem emitBinary (h : Linear env I P) (op : BinOp) (l r : ValueId) : P _ (emitBinary op l r) :=
  h.seq (h.aside (.valueType l)) fun _ => h.emit _

theorem emitSelect (h : Linear env I P) (c a b : ValueId) : P _ (emitSelect c a b) :=
  h.seq (h.aside (.valueType a)) fun _ => h.emit _

theorem emitStore (h : Linear env I P) (v p : ValueId) : P _ (emitStore v p) :=
  h.seq (h.emit _) fun _ => h.pure _

theorem callFunction (h : Linear env I P) (callee : FunctionId) (args : List ValueId)
    (attrs : Attributes) : P _ (callFunction callee args attrs) :=
  h.seq (h.aside (.here fun _ => ⟨_, rfl⟩)) fun _ => h.emit _

theorem callSupport (h : Linear env I P) (f : SupportFunction) (args : List ValueId) (span : Span) :
    P _ (callSupport f args span) :=
  callSupport_of h.seq (h.declare _ _ _ _ _ _) (h.aside .raiseCollector) h.emit args

theorem declareMath (h : Linear env I P) (symbol : String) (arity : Nat) (attrs : Attributes)
    (span : Span) : P _ (declareMath symbol arity attrs span) := h.declare _ _ _ _ _ _

/-! ### Places and operands -/

theorem arrayLength (h : Linear env I P) (array : ValueId) : P _ (arrayLength array) :=
  h.seq (h.aside .arrayHeader) fun _ => h.seq (h.emit _) fun _ => h.emit _

theorem elementAddress (h : Linear env I P) (l : ArrayLayout) (array index : ValueId) :
    P _ (elementAddress l array index) :=
  h.seq (h.aside .arrayHeader) fun _ => h.seq (h.emit _) fun _ => h.seq (h.emit _) fun _ =>
    h.emit _

theorem loadElement (h : Linear env I P) (l : ArrayLayout) (array index : ValueId) (span : Span) :
    P _ (loadElement l array index span) := by
  refine h.seq (h.aside .config) fun c => ?_
  split
  · exact h.callSupport _ _ _
  · exact h.seq (h.elementAddress _ _ _) fun _ => h.emit _

theorem storeElement (h : Linear env I P) (l : ArrayLayout) (array index value : ValueId)
    (span : Span) : P _ (storeElement l array index value span) := by
  refine h.seq (h.aside .config) fun c => ?_
  split
  · exact h.seq (h.callSupport _ _ _) fun _ => h.pure _
  · exact h.seq (h.elementAddress _ _ _) fun _ => h.emitStore _ _

theorem load (h : Linear env I P) (a : Assignable) (span : Span) : P _ (load a span) := by
  unfold Gen.load
  split
  · exact h.emit _
  · exact h.seq (h.emit _) fun _ => h.emit _
  · exact h.loadElement _ _ _ _

theorem store (h : Linear env I P) (a : Assignable) (x : ValueId) (span : Span) :
    P _ (store a x span) := by
  unfold Gen.store
  split
  · exact h.emitStore _ _
  · exact h.seq (h.emit _) fun _ => h.emitStore _ _
  · exact h.storeElement _ _ _ _ _

theorem objectOperand (h : Linear env I P) (o : ObjectRef) : P _ (objectOperand o) := by
  unfold Gen.objectOperand
  split
  · exact h.pure _
  · exact h.emitConst _

theorem operand (h : Linear env I P) (v : Value) (span : Span) : P _ (operand v span) := by
  cases v with
  | unit => exact h.aside .internal
  | rvalue x t => exact h.pure x
  | assignable a => exact h.load a span
  | object o => exact h.objectOperand o

theorem intoObject (h : Linear env I P) (v : Value) (span : Span) : P _ (intoObject v span) := by
  unfold Gen.intoObject
  split
  · exact h.pure _
  · split
    · exact h.seq (h.operand v span) fun x => h.aside (.objectAt _ _ _)
    · exact h.aside .unsupported

/-! ### Conversions -/

theorem boxValue (h : Linear env I P) (v : Value) (target : StaticType) (span : Span) :
    P _ (boxValue v target span) := by
  refine h.seq (h.aside (.layout _ _)) fun inner => h.seq (h.operand v span) fun x => ?_
  cases inner with
  | ptr => exact h.pure _
  | i1 | i32 | f64 => exact h.map (h.callSupport _ _ _) _
  | i64 | void => exact h.aside .unsupported

theorem unboxValue (h : Linear env I P) (v : Value) (inner : StaticType) (span : Span) :
    P _ (unboxValue v inner span) := by
  refine h.seq (h.aside (.layout _ _)) fun lowered => h.seq (h.operand v span) fun cell => ?_
  split
  · exact h.aside (.valueOf _ _ _)
  · exact h.seq (h.emit _) fun x => h.aside (.valueOf _ _ _)

theorem convertFrom (h : Linear env I P) (explicit : Bool) (v : Value) (span : Span)
    {toInner : Gen Value} (hi : P _ toInner) (target : StaticType) :
    P _ (convertFrom explicit v span toInner target) := by
  have casted (op : CastOp) (t : Ty) : P _ (do
      return Value.rvalue (← Gen.emit (.cast op (← Gen.operand v span) t)) target) :=
    h.seq (h.operand v span) fun x => h.map (h.emit _) _
  have none {source target : StaticType} :
      P Value (noConversion explicit source target span) := h.aside .unsupported
  unfold Gen.convertFrom
  split
  · exact casted _ _
  · split
    · exact casted _ _
    · exact none
  · split
    · exact casted _ _
    · exact none
  · split
    · exact h.seq (h.operand v span) fun x => h.seq (h.emitConst _) fun zero => h.map (h.emit _) _
    · exact none
  · split
    · exact h.unboxValue _ _ _
    · exact none
  · exact h.seq hi fun w => h.boxValue _ _ _
  · exact none

theorem convert (h : Linear env I P) (explicit : Bool) (v : Value) (span : Span)
    (target : StaticType) : P _ (convert explicit v span target) := by
  induction target with
  | nullable inner ih =>
    unfold Gen.convert
    split
    · exact h.pure v
    · exact h.convertFrom explicit v span ih _
  | _ =>
    unfold Gen.convert
    split
    · exact h.pure v
    · exact h.convertFrom explicit v span (h.pure v) _

theorem castOperand (h : Linear env I P) (v : Value) (t : StaticType) (span : Span) :
    P _ (castOperand v t span) :=
  h.seq (h.convert false v span t) fun w => h.operand w span

theorem assign (h : Linear env I P) (a : Assignable) (v : Value) (span : Span) :
    P _ (assign a v span) :=
  h.seq (h.castOperand v a.type span) fun x => h.seq (h.store a x span) fun _ =>
    h.aside (.valueOf _ _ _)

theorem generateOperand (h : Linear env I P) {generate : Generate} {n : Node} (hn : P _ (generate n))
    (t : StaticType) : P _ (generateOperand generate n t) :=
  h.seq hn fun v => h.castOperand v t n.span

theorem operands (h : Linear env I P) {generate : Generate} {args : List Node}
    (ha : ∀ a ∈ args, ∀ t, P _ (Gen.generateOperand generate a t)) (t : StaticType) :
    P _ (args.mapM fun a => Gen.generateOperand generate a t) :=
  h.mapM fun a hm => ha a hm t

/-! ### Members of `Math` -/

theorem emitPower (h : Linear env I P) (base exponent : ValueId) (span : Span) :
    P _ (emitPower base exponent span) :=
  h.seq (h.aside .config) fun _ => h.seq (h.declareMath _ _ _ _) fun _ => h.callFunction _ _ _

theorem emitRound (h : Linear env I P) (x : ValueId) (span : Span) : P _ (emitRound x span) := by
  refine h.seq (h.aside .config) fun _ => h.seq (h.declareMath _ _ _ _) fun _ => ?_
  refine h.seq (h.callFunction _ _ _) fun _ => h.seq (h.emitBinary _ _ _) fun _ => ?_
  refine h.seq (h.emitConst _) fun _ => h.seq (h.emit _) fun _ => ?_
  exact h.seq (h.emitConst _) fun _ => h.seq (h.emitBinary _ _ _) fun _ => h.emitSelect _ _ _

theorem mathField (h : Linear env I P) (member : String) (span : Span) : P _ (mathField member span) := by
  unfold Gen.mathField
  split
  · exact h.map (h.emitConst _) _
  · exact h.aside .unsupported
  · exact h.aside .fail

theorem mathOperands (h : Linear env I P) {generate : Generate} {args : List Node}
    (ha : ∀ a ∈ args, ∀ t, P _ (Gen.generateOperand generate a t)) (member : String) (arity : Nat)
    (span : Span) : P _ (mathOperands generate member args arity span) := by
  unfold Gen.mathOperands
  split
  · exact h.aside .fail
  · split
    · exact h.aside .unsupported
    · exact h.operands ha _

theorem mathCallOperand (h : Linear env I P) {generate : Generate} {args : List Node}
    (ha : ∀ a ∈ args, ∀ t, P _ (Gen.generateOperand generate a t)) (member : String) (span : Span) :
    P _ (mathCallOperand generate member args span) := by
  unfold Gen.mathCallOperand
  split
  · refine h.seq (h.mathOperands ha _ _ _) fun operands => h.seq (h.aside .config) fun _ => ?_
    exact h.seq (h.declareMath _ _ _ _) fun callee => h.callFunction _ _ _
  · refine h.seq (h.mathOperands ha _ _ _) fun operands => ?_
    exact h.seq (h.declareMath _ _ _ _) fun callee => h.callFunction _ _ _
  · refine h.seq (h.operands ha _) fun operands => ?_
    split
    · exact h.emitConst _
    · refine h.seq (h.aside .config) fun _ => h.seq (h.declareMath _ _ _ _) fun callee => ?_
      exact h.foldlM (fun acc next => h.callFunction _ _ _) _ _
  · refine h.seq (h.mathOperands ha _ _ _) fun operands => ?_
    split
    · exact h.emitRound _ _
    · exact h.aside (.throw (by simp))
  · exact h.seq (h.mathOperands ha _ _ _) fun _ => h.callSupport _ _ _
  · exact h.aside .unsupported
  · exact h.aside .fail

theorem mathCall (h : Linear env I P) {generate : Generate} {args : List Node}
    (ha : ∀ a ∈ args, ∀ t, P _ (Gen.generateOperand generate a t)) (member : String) (span : Span) :
    P _ (mathCall generate member args span) :=
  h.map (h.mathCallOperand ha member span) _

end Linear

end Gen

end TypedLowering
