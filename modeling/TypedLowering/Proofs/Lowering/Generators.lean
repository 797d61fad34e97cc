import TypedLowering.Lowering.Compiler
import TypedLowering.Proofs.Lowering.Silence
import TypedLowering.Proofs.Lowering.Specialization
import TypedLowering.Proofs.Source.Arrangement

/-!
The generators, one lemma each: what holds of the code of the parts of a node holds of the code of
the node. `Expressive` lists what a property of computations needs for all expressions to have it,
`Pervasive` what it needs for whole programs. Branches, calls and the steps that move about in a
function are where the properties differ, so these are the fields of the two.
-/
namespace TypedLowering
set_option autoImplicit false
open Ssa

/-- A specialization for a call through a signature: the type arguments are those of the signature
as the frame of some state with `I` has them. -/
structure Specialization.Requested (env : Env) (I : GenState → Prop) (signature : Signature)
    (s : Specialization) : Prop where
  resolves : ∃ st decl argCount span, I st ∧
    env.program.function? signature.func = some decl ∧
    s.Resolves env.program signature.func decl
      (signature.typeArgs.map (·.substitute st.frame.subst)) argCount span

namespace Gen

variable {α β : Type} {env : Env} {I : GenState → Prop} {P : (α : Type) → Gen α → Prop}
  {generate : Generate}

/-! ## Looking things up -/

theorem functionDecl_ok {id : FuncId} {d : FunctionDecl} {s s' : GenState}
    (h : functionDecl id env s = .ok d s') : env.program.function? id = some d ∧ s' = s := by
  obtain ⟨p, s₁, hp, h⟩ := bind_ok h
  cases hp
  cases hd : env.program.function? id with
  | none =>
    rw [hd] at h
    exact (throw_ok h).elim
  | some e =>
    rw [hd] at h
    obtain ⟨rfl, rfl⟩ := pure_ok h
    exact ⟨rfl, rfl⟩

theorem mapM_resolveType_ok {s s' : GenState} : ∀ {ts us : List StaticType},
    (ts.mapM resolveType : Gen _) env s = .ok us s' →
      us = ts.map (·.substitute s.frame.subst) ∧ s' = s
  | [], _, h => pure_ok h
  | t :: ts, us, h => by
    rw [List.mapM_cons] at h
    obtain ⟨u, s₁, hu, h⟩ := bind_ok h
    obtain ⟨us', s₂, hus, h⟩ := bind_ok h
    cases hu
    obtain ⟨rfl, rfl⟩ := mapM_resolveType_ok hus
    obtain ⟨rfl, rfl⟩ := pure_ok h
    exact ⟨rfl, rfl⟩

namespace Linear

/-! ## Operators -/

theorem requireArithmetic (h : Linear env I P) (op : BinaryOp) (v : Value) (span : Span) :
    P _ (requireArithmetic op v span) := by
  unfold Gen.requireArithmetic
  split
  · exact h.pure ()
  · exact h.pure ()
  · exact h.aside .unsupported

theorem requireInteger (h : Linear env I P) (op : BinaryOp) (v : Value) (span : Span) :
    P _ (requireInteger op v span) := by
  unfold Gen.requireInteger
  split
  · exact h.pure ()
  · exact h.aside .unsupported

theorem arithmetic (h : Linear env I P) (op : BinaryOp) (lhs rhs : Value) (t : StaticType)
    (span : Span) : P _ (arithmetic op lhs rhs t span) := by
  have computed (t : StaticType) (inst : BinOp) : P _ (do
      let l ← Gen.castOperand lhs t span
      let r ← Gen.castOperand rhs t span
      return Value.rvalue (← Gen.emitBinary inst l r) t) :=
    h.seq (h.castOperand _ _ _) fun l => h.seq (h.castOperand _ _ _) fun r =>
      h.map (h.emitBinary _ _ _) _
  refine h.seq (h.requireArithmetic _ _ _) fun _ => h.seq (h.requireArithmetic _ _ _) fun _ => ?_
  dsimp only
  split
  · exact h.seq (h.pure _) fun choice => computed _ _
  · exact h.seq (h.pure _) fun choice => computed _ _
  · exact h.seq (h.aside .unsupported) fun choice => computed _ _

theorem power (h : Linear env I P) (op : BinaryOp) (lhs rhs : Value) (span : Span) :
    P _ (power op lhs rhs span) := by
  refine h.seq (h.requireArithmetic _ _ _) fun _ => h.seq (h.requireArithmetic _ _ _) fun _ => ?_
  refine h.seq (h.castOperand _ _ _) fun l => h.seq (h.castOperand _ _ _) fun r => ?_
  exact h.map (h.emitPower _ _ _) _

theorem shift (h : Linear env I P) (inst : BinOp) (l r : ValueId) : P _ (shift inst l r) :=
  h.seq (h.emitConst _) fun _ => h.seq (h.emitBinary _ _ _) fun _ => h.emitBinary _ _ _

theorem bitwise (h : Linear env I P) (op : BinaryOp) (lhs rhs : Value) (span : Span) :
    P _ (bitwise op lhs rhs span) := by
  refine h.seq (h.requireInteger _ _ _) fun _ => h.seq (h.requireInteger _ _ _) fun _ => ?_
  refine h.seq (h.operand _ _) fun l => h.seq (h.operand _ _) fun r => ?_
  dsimp only
  split
  iterate 3 exact h.map (h.emitBinary _ _ _) _
  all_goals exact h.map (h.shift _ _ _) _

theorem compareWords (h : Linear env I P) (op : BinaryOp) (lhs rhs : Value) (span : Span) :
    P _ (compareWords op lhs rhs span) :=
  h.seq (h.operand _ _) fun _ => h.seq (h.operand _ _) fun _ => h.map (h.emit _) _

theorem comparePlain (h : Linear env I P) (op : BinaryOp) (lhs rhs : Value) (span : Span) :
    P _ (comparePlain op lhs rhs span) := by
  have numbers : P _ (do
      let l ← Gen.castOperand lhs .number span
      let r ← Gen.castOperand rhs .number span
      return Value.rvalue (← Gen.emit (.fcmp (floatPredicate op) l r)) .boolean) :=
    h.seq (h.castOperand _ _ _) fun _ => h.seq (h.castOperand _ _ _) fun _ => h.map (h.emit _) _
  unfold Gen.comparePlain
  split
  · exact h.compareWords _ _ _ _
  · split
    · exact h.compareWords _ _ _ _
    · exact h.aside .unsupported
  iterate 3 exact numbers
  · split
    · exact h.compareWords _ _ _ _
    · exact h.aside .unsupported
  · exact h.aside .unsupported

theorem equalitySide (h : Linear env I P) (v : Value) (span : Span) : P _ (equalitySide v span) := by
  refine h.seq (h.operand v span) fun x => ?_
  split
  · exact h.pure _
  · exact h.pure _

theorem emitIsUndefined (h : Linear env I P) (side : EqualitySide) :
    P _ (emitIsUndefined side) := by
  unfold Gen.emitIsUndefined
  split
  · exact h.seq (h.emitConst _) fun _ => h.emit _
  · exact h.emitConst _

theorem payloadValue (h : Linear env I P) (side : EqualitySide) (span : Span) :
    P _ (payloadValue side span) := by
  unfold Gen.payloadValue
  split
  · exact h.seq (h.aside (.layout _ _)) fun _ => h.map (h.emit _) _
  · exact h.pure _

theorem unaryOperand (h : Linear env I P) (op : UnaryOp) (v : Value) (span : Span) :
    P _ (unaryOperand op v span) := by
  have against (c : Constant) (f : ValueId → ValueId → Gen ValueId) (hf : ∀ x y, P _ (f x y)) :
      P _ (do
        let x ← Gen.operand v span
        let y ← Gen.emitConst c
        f x y) :=
    h.seq (h.operand _ _) fun x => h.seq (h.emitConst _) fun y => hf x y
  unfold Gen.unaryOperand
  split
  · exact against _ _ fun _ _ => h.emitBinary _ _ _
  · exact h.seq (h.operand _ _) fun _ => h.emit _
  · exact h.operand _ _
  · exact h.operand _ _
  · exact against _ _ fun _ _ => h.emitBinary _ _ _
  · exact against _ _ fun _ _ => h.emitBinary _ _ _
  · exact h.aside .unsupported

/-! ## Literals and names -/

theorem arrayOfOperands (h : Linear env I P) (l : ArrayLayout) (elements : List ValueId)
    (span : Span) : P _ (arrayOfOperands l elements span) :=
  h.seq (h.emitConst _) fun _ => h.callSupport _ _ _

theorem numericLiteral (h : Linear env I P) (n : Node) : P _ (numericLiteral n) := by
  unfold Gen.numericLiteral
  split
  · refine h.seq (h.aside (.nodeType n)) fun t => h.seq (h.aside (.ofExcept _)) fun c => ?_
    exact h.map (h.emitConst c) _
  · exact h.aside .wrongForm

theorem booleanLiteral (h : Linear env I P) (n : Node) : P _ (booleanLiteral n) := by
  unfold Gen.booleanLiteral
  split
  · exact h.map (h.emitConst _) _
  · exact h.aside .wrongForm

theorem undefinedLiteral (h : Linear env I P) (n : Node) : P _ (undefinedLiteral n) := by
  refine h.seq (h.aside (.nodeType n)) fun t => ?_
  split
  iterate 3 exact h.map (h.emitConst _) _
  exact h.aside .unsupported

theorem constantData (h : Linear env I P) (l : ArrayLayout) (elements : List Node) :
    P _ (constantData l elements) := by
  unfold Gen.constantData
  split
  · exact h.pure _
  · exact h.seq (h.aside .frame) fun _ => h.aside (.ofExcept _)

theorem arrayOfConstants (h : Linear env I P) (l : ArrayLayout) (data : List Constant)
    (span : Span) : P _ (arrayOfConstants l data span) := by
  refine h.seq (h.aside (.addLiteralGlobal _ _)) fun _ => h.seq (h.emit _) fun _ => ?_
  exact h.seq (h.emitConst _) fun _ => h.callSupport _ _ _

theorem identifier (h : Linear env I P) (n : Node) : P _ (identifier n) := by
  unfold Gen.identifier
  split
  · refine h.seq (h.aside .frame) fun f => ?_
    split
    · exact h.aside (.valueOf _ _ _)
    · exact h.pure _
    · refine h.seq (h.aside .program) fun p => ?_
      split
      · exact h.pure _
      · exact h.map (h.aside (.descriptor _)) _
      · exact h.aside .unsupported
      · exact h.aside .internal
  · exact h.aside .wrongForm

theorem this (h : Linear env I P) (n : Node) : P _ (this n) := by
  refine h.seq (h.aside .frame) fun f => ?_
  split
  · exact h.pure _
  · exact h.aside .internal

theorem getField (h : Linear env I P) (o : ObjectRef) (member : String) (span : Span) :
    P _ (getField o member span) := by
  unfold Gen.getField
  split
  · unfold Gen.classField
    split
    · exact h.map (h.aside (.requireAddress _ _)) _
    · split
      · exact h.aside .unsupported
      · exact h.aside .internal
  · unfold Gen.arrayField
    split
    · exact h.seq (h.aside (.requireAddress _ _)) fun a => h.map (h.arrayLength a) _
    · exact h.aside .fail
  · exact h.mathField member span

/-! ## Conditions -/

theorem condition (h : Linear env I P) {n : Node} (hn : P _ (generate n)) :
    P _ (condition generate n) := by
  refine h.seq hn fun v => ?_
  split
  · exact h.operand _ _
  · exact h.aside .unsupported

theorem logicalOperand (h : Linear env I P) (op : BinaryOp) {n : Node} (hn : P _ (generate n))
    (span : Span) : P _ (logicalOperand generate op n span) := by
  refine h.seq hn fun v => ?_
  split
  · exact h.operand _ _
  · exact h.aside .unsupported

theorem conditionalArm (h : Linear env I P) {n : Node} (hn : P _ (generate n)) (t : StaticType)
    (span : Span) : P _ (conditionalArm generate n t span) := by
  refine h.seq hn fun v => ?_
  split
  · exact h.pure _
  · exact h.map (h.castOperand _ _ _) _

/-! ## Arguments -/

theorem argumentOperands (h : Linear env I P) {args : List Node}
    (ha : ∀ a ∈ args, ∀ t, P _ (Gen.generateOperand generate a t)) (span : Span) :
    ∀ (index : Nat) (params : List ResolvedParam),
      P _ (argumentOperands generate args span index params)
  | _, [] => h.pure []
  | index, p :: rest => by
    have further (here : List ValueId) : P _ (do
        return here ++ (← Gen.argumentOperands generate args span (index + 1) rest)) :=
      h.map (h.argumentOperands ha span (index + 1) rest) _
    have packed (l : ArrayLayout) : P _ (do
        let elements ← (args.drop index).mapM fun a => Gen.generateOperand generate a l.element
        let here ← Pure.pure [← Gen.arrayOfOperands l elements span]
        return here ++ (← Gen.argumentOperands generate args span (index + 1) rest)) := by
      refine h.seq (h.operands (fun a hm => ha a (List.mem_of_mem_drop hm)) _) fun elements => ?_
      exact h.seq (h.arrayOfOperands _ _ _) fun array => h.seq (h.pure _) further
    unfold Gen.argumentOperands
    dsimp only
    split
    · split
      · exact h.seq (h.aside (.ofExcept _)) packed
      · exact h.seq (h.aside .internal) packed
    · split
      · split
        · next a hget =>
          refine h.seq (ha a (List.mem_of_getElem? hget) _) fun x => ?_
          exact h.seq (h.pure _) further
        · exact h.seq (h.aside (.throw (by simp))) further
      · exact h.seq (h.pure _) further

/-- A call, if specializations have the property. -/
theorem emitCall (h : Linear env I P) {signature : Signature}
    (hs : ∀ s span, s.Requested env I signature → P _ (specialize generate s span)) {args : List Node}
    (ha : ∀ a ∈ args, ∀ t, P _ (Gen.generateOperand generate a t)) (receiver : Option ValueId)
    (span : Span) :
    P _ (emitCall generate signature receiver args span) := by
  refine h.bind (h.mapM fun t _ => h.aside (.resolveType t)) ?_
  rintro typeArgs ⟨st, st', hI, htypes⟩
  rw [(mapM_resolveType_ok htypes).1]
  refine h.bind (h.aside (.functionDecl _)) ?_
  rintro decl ⟨st₁, st₁', -, hdecl⟩
  refine h.bind (h.aside .program) ?_
  rintro p ⟨st₂, st₂', -, hp⟩
  cases hp
  refine h.bind (h.aside (.ofExcept _)) ?_
  rintro s ⟨st₃, st₃', -, hresolve⟩
  have hs' : s.Requested env I signature :=
    ⟨st, decl, args.length, span, hI, (functionDecl_ok hdecl).1,
      Specialization.resolve_ok (ofExcept_ok hresolve).1⟩
  refine h.seq (h.argumentOperands ha span 0 s.params) fun operands => ?_
  refine h.seq (hs s span hs') fun callee => ?_
  exact h.seq (h.callFunction _ _ _) fun result => h.aside (.valueOf _ _ _)

end Linear

/-! ## Expressions -/

/-- How the property `V` of the code of nodes goes with a property `P` of all other code. `V` may be
the weaker one, as it is used only if there is an operand. -/
structure Consumes (env : Env) (P : (α : Type) → Gen α → Prop) (V : Gen Value → Prop) : Prop where
  value : ∀ {m : Gen Value}, P _ m → V m
  consume : ∀ {β : Type} {m : Gen Value} {f : Value → Gen β}, V m → (∀ v, P _ (f v)) →
    Fails env (f .unit) → P _ (m >>= f)
  pass : ∀ {m : Gen Value} {f : Value → Gen Value}, V m → (∀ v, P _ (f v)) →
    Silent env (f .unit) → V (m >>= f)

/-- There need not be a difference. -/
theorem Linear.consumes (h : Linear env I P) : Consumes env P (P Value) where
  value := id
  consume := fun hm hf _ => h.seq hm hf
  pass := fun hm hf _ => h.seq hm hf

namespace Consumes

variable {V : Gen Value → Prop} {n : Node}

theorem operandOf (hc : Consumes env P V) (h : Linear env I P) (hn : V (generate n))
    (t : StaticType) : P _ (generateOperand generate n t) :=
  hc.consume hn (fun v => h.castOperand v t n.span) (castOperand_fails _ _)

theorem condition (hc : Consumes env P V) (h : Linear env I P) (hn : V (generate n)) :
    P _ (condition generate n) := by
  refine hc.consume hn (fun v => ?_) .unsupported
  split
  · exact h.operand _ _
  · exact h.aside .unsupported

theorem logicalOperand (hc : Consumes env P V) (h : Linear env I P) (op : BinaryOp)
    (hn : V (generate n)) (span : Span) : P _ (logicalOperand generate op n span) := by
  refine hc.consume hn (fun v => ?_) .unsupported
  split
  · exact h.operand _ _
  · exact h.aside .unsupported

end Consumes

/-- What all expressions need to have a property of computations, `Good` being the expressions that
are considered: straight-line code has it, and so do branches and specializations. -/
structure Expressive (env : Env) (I : GenState → Prop) (generate : Generate) (Good : Node → Prop)
    (P : (α : Type) → Gen α → Prop) (V : Gen Value → Prop) : Prop
    extends Linear env I P, Consumes env P V where
  node : ∀ {n}, Good n → V (generate n)
  part : ∀ {n c}, Good n → (.expression, c) ∈ n.form.parts → Good c
  compareNullable : ∀ lhs rhs negated span, P _ (compareNullable lhs rhs negated span)
  shortCircuit : ∀ op {left right} span, Good left → Good right →
    P _ (shortCircuit generate op left right span)
  conditional : ∀ {n}, Good n → V (conditional generate n)
  specialize : ∀ {n signature} s span, Good n → n.signature? = some signature →
    s.Requested env I signature → P _ (specialize generate s span)

namespace Expressive

variable {Good : Node → Prop} {V : Gen Value → Prop} {n : Node}

theorem operandOf (h : Expressive env I generate Good P V) (hn : Good n) (t : StaticType) :
    P _ (generateOperand generate n t) :=
  h.toConsumes.operandOf h.toLinear (h.node hn) t

theorem arrayOfNodes (h : Expressive env I generate Good P V) (l : ArrayLayout) {elements : List Node}
    (he : ∀ e ∈ elements, Good e) (span : Span) : P _ (arrayOfNodes generate l elements span) :=
  h.seq (h.operands (fun e hm => h.operandOf (he e hm)) _) fun _ => h.arrayOfOperands _ _ _

theorem arrayLiteral (h : Expressive env I generate Good P V) (hn : Good n) :
    P _ (arrayLiteral generate n) := by
  unfold Gen.arrayLiteral
  split
  · next elements hform =>
    have he : ∀ e ∈ elements, Good e := fun e hm => h.part hn (by simp [hform, Form.parts, hm])
    have nodes (l : ArrayLayout) : P _ (do
        return Value.object (.arrayAt l (← Gen.arrayOfNodes generate l elements n.span))) :=
      h.map (h.arrayOfNodes l he n.span) _
    refine h.seq (h.aside (.nodeType n)) fun t => h.seq (h.aside (.ofExcept _)) fun l => ?_
    refine h.seq (h.constantData l elements) fun data => ?_
    split
    · refine h.seq (h.aside .config) fun c => ?_
      split
      · exact h.map (h.arrayOfConstants _ _ _) _
      · exact nodes l
    · exact nodes l
  · exact h.aside .wrongForm

theorem strictBinary (h : Expressive env I generate Good P V) (op : BinaryOp) (lhs rhs : Value)
    (t : StaticType) (span : Span) : P _ (strictBinary op lhs rhs t span) := by
  have compared : P _ (Gen.compare op lhs rhs span) := by
    unfold Gen.compare
    dsimp only
    split
    · split
      · exact h.compareNullable _ _ _ _
      · exact h.aside .unsupported
    · exact h.comparePlain _ _ _ _
  unfold Gen.strictBinary
  split
  iterate 5 exact h.arithmetic _ _ _ _ _
  · exact h.power _ _ _ _
  iterate 6 exact h.bitwise _ _ _ _
  iterate 8 exact compared
  all_goals exact h.aside .internal

theorem binary (h : Expressive env I generate Good P V) (hn : Good n) : P _ (binary generate n) := by
  unfold Gen.binary
  split
  · next op left right hform =>
    have hl : Good left := h.part hn (by simp [hform, Form.parts])
    have hr : Good right := h.part hn (by simp [hform, Form.parts])
    refine h.seq (h.aside (.nodeType n)) fun t => ?_
    dsimp only
    split
    · exact h.seq (h.shortCircuit _ _ hl hr) fun v => h.convert _ _ _ _
    · refine h.consume (h.node hl) (fun l => h.consume (h.node hr) (fun r => ?_) ?_) ?_
      · exact h.seq (h.strictBinary _ _ _ _ _) fun v => h.convert _ _ _ _
      · exact (strictBinary_fails_right op l t n.span).bind
      · exact .after fun r => (strictBinary_fails_left op r t n.span).bind
  · exact h.aside .wrongForm

theorem unary (h : Expressive env I generate Good P V) (hn : Good n) : P _ (unary generate n) := by
  unfold Gen.unary
  split
  · next op inner hform =>
    refine h.consume (h.node (h.part hn (by simp [hform, Form.parts]))) (fun v => ?_)
      (unaryOperand_fails op n.span).bind
    refine h.seq (h.unaryOperand _ _ _) fun x => h.seq (h.aside (.nodeType n)) fun t => ?_
    exact h.convert _ _ _ _
  · exact h.aside .wrongForm

theorem update (h : Expressive env I generate Good P V) (hn : Good n) : P _ (update generate n) := by
  unfold Gen.update
  split
  · next op before target hform =>
    refine h.consume (h.node (h.part hn (by simp [hform, Form.parts]))) (fun v => ?_) .internal
    split
    · split
      · exact h.aside .unsupported
      · refine h.seq (h.load _ _) fun old => h.seq (h.emitConst _) fun one => ?_
        exact h.seq (h.emitBinary _ _ _) fun new => h.seq (h.store _ _ _) fun _ => h.pure _
    · exact h.aside .internal
  · exact h.aside .wrongForm

theorem assignment (h : Expressive env I generate Good P V) (hn : Good n) :
    P _ (assignment generate n) := by
  unfold Gen.assignment
  split
  · next op target value hform =>
    have hv : Good value := h.part hn (by simp [hform, Form.parts])
    refine h.consume (h.node (h.part hn (by simp [hform, Form.parts]))) (fun v => ?_) .internal
    split
    · next a =>
      split
      · exact h.consume (h.node hv) (fun w => h.assign _ _ _) (assign_fails a n.span)
      · next op =>
        split
        · exact h.aside .unsupported
        · refine h.seq (h.load _ _) fun current => h.consume (h.node hv) (fun rhs => ?_)
            (strictBinary_fails_right op (.rvalue current a.type) a.type n.span).bind
          exact h.seq (h.strictBinary _ _ _ _ _) fun result => h.assign _ _ _
    · exact h.aside .internal
  · exact h.aside .wrongForm

theorem cast (h : Expressive env I generate Good P V) (hn : Good n) : V (cast generate n) := by
  unfold Gen.cast
  split
  · next inner hform =>
    refine h.pass (h.node (h.part hn (by simp [hform, Form.parts]))) (fun v => ?_)
      (.after fun t => convert_silent true n.span t)
    exact h.seq (h.aside (.nodeType n)) fun t => h.convert _ _ _ _
  · exact h.value (h.aside .wrongForm)

theorem paren (h : Expressive env I generate Good P V) (hn : Good n) : V (paren generate n) := by
  unfold Gen.paren
  split
  · next inner hform => exact h.node (h.part hn (by simp [hform, Form.parts]))
  · exact h.value (h.aside .wrongForm)

/-- The object that a member is taken of. -/
theorem target (h : Expressive env I generate Good P V) {object : Node} (ho : Good object)
    (span : Span) {f : ObjectRef → Gen Value} (hf : ∀ o, P _ (f o)) : P _ (do
      let o ← intoObject (← generate object) span
      f o) :=
  h.consume (h.node ho) (fun _ => h.seq (h.intoObject _ _) hf) (intoObject_fails span).bind

theorem member (h : Expressive env I generate Good P V) (hn : Good n) :
    P _ (member generate n) := by
  unfold Gen.member
  split
  · next object property hform =>
    exact h.target (h.part hn (by simp [hform, Form.parts])) _ fun o => h.getField _ _ _
  · exact h.aside .wrongForm

theorem index (h : Expressive env I generate Good P V) (hn : Good n) : P _ (index generate n) := by
  unfold Gen.index
  split
  · next object i hform =>
    refine h.target (h.part hn (by simp [hform, Form.parts])) _ fun o => ?_
    unfold Gen.indexObject
    split
    · refine h.seq (h.aside (.requireAddress _ _)) fun a => ?_
      exact h.map (h.operandOf (h.part hn (by simp [hform, Form.parts])) _) _
    · exact h.aside .unsupported
  · exact h.aside .wrongForm

/-! ### Calls -/

theorem callThrough (h : Expressive env I generate Good P V) {signature : Signature} (hn : Good n)
    (hs : n.signature? = some signature) (receiver : Option ValueId) {args : List Node}
    (ha : ∀ a ∈ args, Good a) (span : Span) :
    P _ (Gen.emitCall generate signature receiver args span) :=
  h.emitCall (fun s span hr => h.specialize s span hn hs hr) (fun a hm => h.operandOf (ha a hm))
    receiver span

theorem callMethod (h : Expressive env I generate Good P V) (hn : Good n)
    {signature : Option Signature} (hs : n.signature? = signature) (o : ObjectRef) (member : String)
    {args : List Node} (ha : ∀ a ∈ args, Good a) (span : Span) :
    P _ (callMethod generate o member args signature span) := by
  unfold Gen.callMethod
  split
  · unfold Gen.classCall
    split
    · exact h.aside .internal
    · refine h.seq (h.aside (.functionDecl _)) fun decl => ?_
      split
      · exact h.seq (h.aside (.requireAddress _ _)) fun a => h.callThrough hn hs _ ha _
      · exact h.callThrough hn hs _ ha _
  · unfold Gen.arrayCall
    split
    · refine h.seq (h.aside (.requireAddress _ _)) fun a => ?_
      split
      · exact h.aside .fail
      · refine h.seq (h.operandOf (ha _ List.mem_cons_self) _) fun x => ?_
        exact h.map (h.callSupport _ _ _) _
    · split
      · refine h.seq (h.aside (.requireAddress _ _)) fun a => ?_
        exact h.seq (h.callSupport _ _ _) fun x => h.aside (.valueOf _ _ _)
      · exact h.aside .fail
  · exact h.mathCall (fun a hm => h.operandOf (ha a hm)) _ _

theorem call (h : Expressive env I generate Good P V) (hn : Good n) : P _ (call generate n) := by
  unfold Gen.call
  split
  · next callee args signature hform =>
    have hs : n.signature? = signature := by simp [Node.signature?, hform]
    have hc : Good callee := h.part hn (by simp [hform, Form.parts])
    have ha : ∀ a ∈ args, Good a := fun a hm => h.part hn (by simp [hform, Form.parts, hm])
    split
    · next object property hcallee =>
      refine h.target (h.part hc (by simp [hcallee, Form.parts])) _ fun o => ?_
      exact h.callMethod hn hs _ _ ha _
    · split
      · exact h.callThrough hn hs _ ha _
      · exact h.aside .internal
  · exact h.aside .wrongForm

theorem classNew (h : Expressive env I generate Good P V) (hn : Good n) {signature : Option Signature}
    (hs : n.signature? = signature) (d : ClassDescriptor) {args : List Node}
    (ha : ∀ a ∈ args, Good a) (span : Span) :
    P _ (classNew generate d args signature span) := by
  refine h.seq (h.emitConst _) fun _ => h.seq (h.emitConst _) fun _ => ?_
  refine h.seq (h.callSupport _ _ _) fun address => ?_
  dsimp only
  split
  · exact h.seq (h.callThrough hn hs _ ha _) fun _ => h.pure _
  · split
    · exact h.seq (h.aside .internal) fun _ => h.pure _
    · exact h.pure _
  · exact h.seq (h.aside .internal) fun _ => h.pure _

theorem arrayNew (h : Expressive env I generate Good P V) (l : ArrayLayout) {args : List Node}
    (ha : ∀ a ∈ args, Good a) (span : Span) : P _ (arrayNew generate l args span) := by
  unfold Gen.arrayNew
  dsimp only
  split
  · exact h.seq (h.emitConst _) fun _ => h.map (h.callSupport _ _ _) _
  · exact h.seq (h.operandOf (ha _ (by simp)) _) fun _ => h.map (h.callSupport _ _ _) _
  · exact h.seq (h.aside .unsupported) fun _ => h.map (h.callSupport _ _ _) _

theorem construct (h : Expressive env I generate Good P V) (hn : Good n) :
    P _ (construct generate n) := by
  unfold Gen.construct
  split
  · next callee args signature hform =>
    have hs : n.signature? = signature := by simp [Node.signature?, hform]
    have ha : ∀ a ∈ args, Good a := fun a hm => h.part hn (by simp [hform, Form.parts, hm])
    refine h.seq (h.aside (.nodeType n)) fun t => ?_
    unfold Gen.constructObject
    split
    · exact h.seq (h.aside (.descriptor _)) fun d => h.classNew hn hs d ha _
    · exact h.seq (h.aside (.ofExcept _)) fun l => h.arrayNew l ha _
    · exact h.aside .unsupported
    · exact h.aside .unsupported
  · exact h.aside .wrongForm

/-- The generators made for expressions. -/
theorem standard (h : Expressive env I generate Good P V) (hn : Good n) {kind : SyntaxKind}
    (hk : kind.isExpression = true) : V (standard generate kind n) := by
  cases kind with
  | numericLiteral => exact h.value (h.numericLiteral n)
  | booleanLiteral => exact h.value (h.booleanLiteral n)
  | undefinedLiteral => exact h.value (h.undefinedLiteral n)
  | arrayLiteral => exact h.value (h.arrayLiteral hn)
  | identifier => exact h.value (h.identifier n)
  | this => exact h.value (h.this n)
  | member => exact h.value (h.member hn)
  | index => exact h.value (h.index hn)
  | paren => exact h.paren hn
  | unary => exact h.value (h.unary hn)
  | binary => exact h.value (h.binary hn)
  | update => exact h.value (h.update hn)
  | assign => exact h.value (h.assignment hn)
  | conditional => exact h.conditional hn
  | cast => exact h.cast hn
  | call => exact h.value (h.call hn)
  | construct => exact h.value (h.construct hn)
  | variableDeclaration | expressionStatement | block | ifElse | whileLoop | doWhile | forLoop
  | forIn | forOf | switch | tryCatch | throw | labeled | ret | breakLoop | continueLoop | empty =>
    cases hk
  | _ => exact h.value (h.aside .fail)

end Expressive

/-! ## Branches -/

/-- What expressions with branches need to have a property of computations: straight-line code has it,
and so have the steps from block to block. -/
structure Branching (env : Env) (I : GenState → Prop) (P : (α : Type) → Gen α → Prop) : Prop
    extends Linear env I P where
  terminate : ∀ t, P _ (terminate t)
  appendBlock : ∀ word, P _ (appendBlock word)
  positionAt : ∀ b, P _ (positionAt b)

namespace Branching

/-- The jump at the end of a block, and what goes on in another. -/
theorem jump (h : Branching env I P) (t : Terminator) (b : BlockId) {m : Gen α} (hm : P _ m) :
    P _ (do
      Gen.terminate t
      Gen.positionAt b
      m) :=
  h.seq (h.terminate t) fun _ => h.seq (h.positionAt b) fun _ => hm

theorem compareNullable (h : Branching env I P) (lhs rhs : Value) (negated : Bool) (span : Span) :
    P _ (compareNullable lhs rhs negated span) := by
  refine h.seq (h.equalitySide _ _) fun l => h.seq (h.equalitySide _ _) fun r => ?_
  refine h.seq (h.emitIsUndefined _) fun lu => h.seq (h.emitIsUndefined _) fun ru => ?_
  refine h.seq (h.emitBinary _ _ _) fun both => h.seq (h.emitBinary _ _ _) fun either => ?_
  refine h.seq (h.aside .currentBlock) fun entry => h.seq (h.appendBlock _) fun payload => ?_
  refine h.seq (h.appendBlock _) fun merge => h.jump _ _ ?_
  refine h.seq (h.payloadValue _ _) fun x => h.seq (h.payloadValue _ _) fun y => ?_
  refine h.seq (h.comparePlain _ _ _ _) fun v => h.seq (h.operand _ _) fun equal => ?_
  refine h.seq (h.aside .currentBlock) fun _ => h.jump _ _ (h.seq (h.emit _) fun result => ?_)
  split
  · exact h.seq (h.emitConst _) fun truth => h.map (h.emitBinary _ _ _) _
  · exact h.pure _

theorem shortCircuit (h : Branching env I P) (op : BinaryOp) {left right : Node} (span : Span)
    (hl : P _ (generate left)) (hr : P _ (generate right)) :
    P _ (shortCircuit generate op left right span) := by
  refine h.seq (h.logicalOperand op hl _) fun l => h.seq (h.aside .currentBlock) fun b => ?_
  refine h.seq (h.appendBlock _) fun rhsBlock => h.seq (h.appendBlock _) fun merge => ?_
  have joined : P _ (do
      Gen.positionAt rhsBlock
      let rhs ← Gen.logicalOperand generate op right span
      let rhsEnd ← Gen.currentBlock
      Gen.terminate (.br merge)
      Gen.positionAt merge
      return Value.rvalue (← Gen.emit (.phi .i1 [(l, b), (rhs, rhsEnd)])) .boolean) := by
    refine h.seq (h.positionAt _) fun _ => h.seq (h.logicalOperand op hr _) fun r => ?_
    exact h.seq (h.aside .currentBlock) fun _ => h.jump _ _ (h.map (h.emit _) _)
  dsimp only
  split
  · exact h.seq (h.terminate _) fun _ => joined
  · exact h.seq (h.terminate _) fun _ => joined

theorem conditional (h : Branching env I P) {n : Node}
    (hp : ∀ c, (.expression, c) ∈ n.form.parts → P _ (generate c)) :
    P _ (conditional generate n) := by
  unfold Gen.conditional
  split
  · next cond thenExpr elseExpr hform =>
    have hc : P _ (generate cond) := hp _ (by simp [hform, Form.parts])
    have ht : P _ (generate thenExpr) := hp _ (by simp [hform, Form.parts])
    have he : P _ (generate elseExpr) := hp _ (by simp [hform, Form.parts])
    refine h.seq (h.aside (.nodeType n)) fun t => h.seq (h.condition hc) fun c => ?_
    refine h.seq (h.appendBlock _) fun thenBlock => h.seq (h.appendBlock _) fun elseBlock => ?_
    refine h.seq (h.appendBlock _) fun merge => h.jump _ _ ?_
    refine h.seq (h.conditionalArm ht _ _) fun a => h.seq (h.aside .currentBlock) fun _ => ?_
    refine h.jump _ _ ?_
    refine h.seq (h.conditionalArm he _ _) fun b => ?_
    refine h.seq (h.aside .currentBlock) fun _ => ?_
    refine h.jump _ _ ?_
    split
    · refine h.seq (h.aside (.layout _ _)) fun lowered => h.seq (h.emit _) fun x => ?_
      exact h.aside (.valueOf _ _ _)
    · exact h.pure _
  · exact h.aside .wrongForm

end Branching

/-! ## Whole programs -/

/-- What whole programs need to have a property of computations, `T` being the types that calls pass
for type parameters: straight-line code has it, and so has every step that moves about in the
current function, and a specialization if the code of its body has it. -/
structure Pervasive (env : Env) (I : GenState → Prop) (T : StaticType → Prop)
    (P : (α : Type) → Gen α → Prop) : Prop extends Linear env I P where
  terminate : ∀ t, P _ (terminate t)
  appendBlock : ∀ word, P _ (appendBlock word)
  modifyFrame : ∀ g : Frame → Frame, (∀ f, (g f).function = f.function ∧ (g f).subst = f.subst) →
    P _ (modifyFrame g)
  specialize : ∀ {generate signature s} span, (∀ t ∈ signature.typeArgs, T t) →
    s.Requested env I signature →
    (∀ decl body, env.program.function? s.func = some decl → decl.body = some body →
      P _ (generateBody generate s body span)) → P _ (specialize generate s span)

namespace Pervasive

variable {T : StaticType → Prop} {n : Node}

theorem positionAt (h : Pervasive env I T P) (b : BlockId) : P _ (positionAt b) :=
  h.modifyFrame _ fun _ => ⟨rfl, rfl⟩

theorem setScope (h : Pervasive env I T P) (scope : Scope String StaticType) :
    P _ (setScope scope) :=
  h.modifyFrame _ fun _ => ⟨rfl, rfl⟩

theorem branchIfOpen (h : Pervasive env I T P) (b : BlockId) : P _ (branchIfOpen b) := by
  refine h.seq (h.aside .isTerminated) fun ended => ?_
  split
  · exact h.terminate _
  · exact h.pure ()

/-- What goes from block to block. -/
theorem branching (h : Pervasive env I T P) : Branching env I P :=
  ⟨h.toLinear, h.terminate, h.appendBlock, h.positionAt⟩

theorem jump (h : Pervasive env I T P) (t : Terminator) (b : BlockId) {m : Gen α} (hm : P _ m) :
    P _ (do
      Gen.terminate t
      Gen.positionAt b
      m) :=
  h.branching.jump t b hm

/-! ### Statements -/

section Statements

variable (h : Pervasive env I T P) (hp : ∀ q c, (q, c) ∈ n.form.parts → P _ (generate c))

theorem bindLocal (h : Pervasive env I T P) (name : String) (x : ValueId) (t : StaticType)
    (span : Span) : P _ (bindLocal name x t span) := by
  refine h.seq (h.aside (.layout _ _)) fun lowered => h.seq (h.emitSlot _) fun slot => ?_
  exact h.seq (h.emitStore _ _) fun _ => h.modifyFrame _ fun _ => ⟨rfl, rfl⟩

include h hp

theorem variableDeclaration : P _ (variableDeclaration generate n) := by
  unfold Gen.variableDeclaration
  split
  · next name init mutable hform =>
    refine h.seq (h.aside (.nodeType n)) fun t => ?_
    dsimp only
    split
    · next init =>
      refine h.seq (h.generateOperand (hp .expression _ (by simp [hform, Form.parts])) _) fun x => ?_
      split
      · exact h.map (h.bindLocal _ _ _ _) _
      · exact h.seq (h.modifyFrame _ fun _ => ⟨rfl, rfl⟩) fun _ => h.pure _
    · refine h.seq (h.aside (.layout _ _)) fun lowered => ?_
      split
      · exact h.seq (h.emitConst _) fun x => h.map (h.bindLocal _ _ _ _) _
      · exact h.map (h.aside .unsupported) _
  · exact h.aside .wrongForm

theorem expressionStatement : P _ (expressionStatement generate n) := by
  unfold Gen.expressionStatement
  split
  · next e hform => exact h.map (hp .expression _ (by simp [hform, Form.parts])) _
  · exact h.aside .wrongForm

omit hp in
theorem statements : ∀ {body : List Node}, (∀ c ∈ body, P _ (generate c)) →
    P _ (statements generate body)
  | [], _ => h.pure ()
  | c :: rest, hb => by
    have further : P _ (do
        let _ ← generate c
        Gen.statements generate rest) :=
      h.seq (hb c List.mem_cons_self) fun _ =>
        statements fun c hm => hb c (List.mem_cons_of_mem _ hm)
    refine h.seq ?_ fun _ => further
    refine h.seq (h.aside .isTerminated) fun ended => ?_
    split
    · exact h.seq (h.appendBlock _) fun b => h.positionAt b
    · exact h.pure ()

theorem block : P _ (block generate n) := by
  unfold Gen.block
  split
  · next body hform =>
    refine h.seq (h.aside .frame) fun f => h.seq (h.statements fun c hm => ?_) fun _ => ?_
    · exact hp .item c (by simp [hform, Form.parts, hm])
    · exact h.map (h.setScope _) _
  · exact h.aside .wrongForm

theorem ifElse : P _ (ifElse generate n) := by
  unfold Gen.ifElse
  split
  · next cond thenBranch elseBranch hform =>
    have hc : P _ (generate cond) := hp .expression _ (by simp [hform, Form.parts])
    have ht : P _ (generate thenBranch) := hp .statement _ (by simp [hform, Form.parts])
    refine h.seq (h.condition hc) fun c => h.seq (h.appendBlock _) fun thenBlock => ?_
    dsimp only
    split
    · refine h.seq (h.appendBlock _) fun merge => h.jump _ _ (h.seq ht fun _ => ?_)
      exact h.seq (h.branchIfOpen _) fun _ => h.map (h.positionAt _) _
    · have he : P _ (generate ‹Node›) := hp .statement _ (by simp [hform, Form.parts])
      refine h.seq (h.appendBlock _) fun elseBlock => h.seq (h.appendBlock _) fun merge => ?_
      refine h.jump _ _ (h.seq ht fun _ => h.seq (h.branchIfOpen _) fun _ => ?_)
      refine h.seq (h.positionAt _) fun _ => h.seq he fun _ => ?_
      exact h.seq (h.branchIfOpen _) fun _ => h.map (h.positionAt _) _
  · exact h.aside .wrongForm

omit hp in
theorem loopBody {body : Node} (hb : P _ (generate body)) (target : LoopTarget) (next : BlockId) :
    P _ (loopBody generate body target next) := by
  refine h.seq (h.modifyFrame _ fun _ => ⟨rfl, rfl⟩) fun _ => h.seq hb fun _ => ?_
  exact h.seq (h.modifyFrame _ fun _ => ⟨rfl, rfl⟩) fun _ => h.branchIfOpen _

theorem whileLoop : P _ (whileLoop generate n) := by
  unfold Gen.whileLoop
  split
  · next cond body hform =>
    have hc : P _ (generate cond) := hp .expression _ (by simp [hform, Form.parts])
    have hb : P _ (generate body) := hp .statement _ (by simp [hform, Form.parts])
    refine h.seq (h.appendBlock _) fun header => h.seq (h.appendBlock _) fun bodyBlock => ?_
    refine h.seq (h.appendBlock _) fun exit => h.jump _ _ (h.seq (h.condition hc) fun c => ?_)
    refine h.jump _ _ (h.seq (h.loopBody hb _ _) fun _ => h.map (h.positionAt _) _)
  · exact h.aside .wrongForm

theorem doWhile : P _ (doWhile generate n) := by
  unfold Gen.doWhile
  split
  · next body cond hform =>
    have hc : P _ (generate cond) := hp .expression _ (by simp [hform, Form.parts])
    have hb : P _ (generate body) := hp .statement _ (by simp [hform, Form.parts])
    refine h.seq (h.appendBlock _) fun bodyBlock => h.seq (h.appendBlock _) fun latch => ?_
    refine h.seq (h.appendBlock _) fun exit => h.jump _ _ (h.seq (h.loopBody hb _ _) fun _ => ?_)
    refine h.seq (h.positionAt _) fun _ => h.seq (h.condition hc) fun c => ?_
    exact h.jump _ _ (h.pure _)
  · exact h.aside .wrongForm

omit hp in
theorem generateOptional {part : Option Node} (hg : ∀ c, part = some c → P _ (generate c)) :
    P _ (generateOptional generate part) := by
  cases part with
  | none => exact h.pure ()
  | some c => exact h.map (hg c rfl) _

theorem forLoop : P _ (forLoop generate n) := by
  unfold Gen.forLoop
  split
  · next init cond update body hform =>
    have hb : P _ (generate body) := hp .statement _ (by simp [hform, Form.parts])
    have rest (header bodyBlock step exit : BlockId) (outer : Scope String StaticType) : P _ (do
        Gen.positionAt bodyBlock
        Gen.loopBody generate body ⟨exit, step⟩ step
        Gen.positionAt step
        Gen.generateOptional generate update
        Gen.terminate (.br header)
        Gen.positionAt exit
        Gen.setScope outer
        return Value.unit) := by
      refine h.seq (h.positionAt _) fun _ => h.seq (h.loopBody hb _ _) fun _ => ?_
      refine h.seq (h.positionAt _) fun _ => h.seq (h.generateOptional ?_) fun _ => ?_
      · rintro c rfl
        exact hp .expression c (by simp [hform, Form.parts])
      · exact h.jump _ _ (h.map (h.setScope _) _)
    refine h.seq (h.aside .frame) fun f => h.seq (h.generateOptional ?_) fun _ => ?_
    · rintro c rfl
      exact hp .init c (by simp [hform, Form.parts])
    refine h.seq (h.appendBlock _) fun header => h.seq (h.appendBlock _) fun bodyBlock => ?_
    refine h.seq (h.appendBlock _) fun step => h.seq (h.appendBlock _) fun exit => ?_
    refine h.jump _ _ ?_
    dsimp only
    split
    · next c =>
      refine h.seq (h.condition (hp .expression c (by simp [hform, Form.parts]))) fun x => ?_
      exact h.seq (h.terminate _) fun _ => rest _ _ _ _ _
    · exact h.seq (h.terminate _) fun _ => rest _ _ _ _ _
  · exact h.aside .wrongForm

theorem returnStatement : P _ (returnStatement generate n) := by
  unfold Gen.returnStatement
  split
  · next value hform =>
    refine h.seq (h.aside .frame) fun f => ?_
    dsimp only
    split
    · have hv : P _ (generate ‹Node›) := hp .expression _ (by simp [hform, Form.parts])
      split
      · exact h.seq hv fun _ => h.map (h.terminate _) _
      · exact h.seq (h.generateOperand hv _) fun x => h.map (h.terminate _) _
    · split
      · exact h.map (h.terminate _) _
      · exact h.map (h.aside .internal) _
  · exact h.aside .wrongForm

omit hp in
theorem breakLoop : P _ (breakLoop n) := by
  refine h.seq (h.aside .frame) fun f => ?_
  split
  · exact h.map (h.terminate _) _
  · exact h.aside .internal

omit hp in
theorem continueLoop : P _ (continueLoop n) := by
  refine h.seq (h.aside .frame) fun f => ?_
  split
  · exact h.map (h.terminate _) _
  · exact h.aside .internal

/-- The generators made for statements. -/
theorem statement {kind : SyntaxKind} (hk : kind.isExpression = false) :
    P _ (Gen.standard generate kind n) := by
  cases kind with
  | variableDeclaration => exact h.variableDeclaration hp
  | expressionStatement => exact h.expressionStatement hp
  | block => exact h.block hp
  | ifElse => exact h.ifElse hp
  | whileLoop => exact h.whileLoop hp
  | doWhile => exact h.doWhile hp
  | forLoop => exact h.forLoop hp
  | ret => exact h.returnStatement hp
  | breakLoop => exact h.breakLoop
  | continueLoop => exact h.continueLoop
  | empty => exact h.pure _
  | forIn | forOf | switch | tryCatch | throw | labeled => exact h.aside .fail
  | _ => cases hk

end Statements

/-! ### Functions -/

theorem bindParams (h : Pervasive env I T P) : ∀ (next : Nat) (params : List ResolvedParam),
    (∀ q ∈ params, ∀ d, q.default = some d → P _ (generate d)) →
    P _ (bindParams generate next params)
  | _, [], _ => h.pure ()
  | next, q :: rest, hd => by
    have further (k : Nat) : P _ (Gen.bindParams generate k rest) :=
      h.bindParams k rest fun r hr => hd r (List.mem_cons_of_mem _ hr)
    unfold Gen.bindParams
    split
    · exact h.seq (h.bindLocal _ _ _ _) fun _ => further _
    · split
      · next d hdef =>
        refine h.seq (h.generateOperand (hd q List.mem_cons_self d hdef) _) fun x => ?_
        exact h.seq (h.bindLocal _ _ _ _) fun _ => further _
      · exact h.aside .internal

theorem finishBody (h : Pervasive env I T P) : P _ finishBody := by
  refine h.seq (h.aside .isTerminated) fun ended => ?_
  split
  · refine h.seq (h.aside .frame) fun f => ?_
    split
    · exact h.terminate _
    · exact h.terminate _
  · exact h.pure ()

theorem generateBody (h : Pervasive env I T P) {s : Specialization} {body : Node}
    (hb : P _ (generate body)) (hd : ∀ q ∈ s.params, ∀ d, q.default = some d → P _ (generate d))
    (span : Span) : P _ (generateBody generate s body span) := by
  have bound (first : Nat) : P _ (do
      Gen.bindParams generate first s.params
      let _ ← generate body
      Gen.finishBody) :=
    h.seq (h.bindParams _ _ hd) fun _ => h.seq hb fun _ => h.finishBody
  unfold Gen.generateBody
  dsimp only
  split
  · split
    · exact h.seq (h.aside .internal) fun _ => bound _
    · refine h.seq (h.aside (.descriptor _)) fun d => ?_
      exact h.seq (h.modifyFrame _ fun _ => ⟨rfl, rfl⟩) fun _ => bound _
  · exact bound _

/-! ### The knot -/

/-- The body of a requested specialization. -/
theorem bodyOf (h : Pervasive env I T P) (hp : env.program.AppliesAt T)
    (hg : ∀ n, n.AppliesAt T → P _ (generate n)) {signature : Signature} {s : Specialization}
    (hr : s.Requested env I signature) (span : Span) (decl : FunctionDecl) (body : Node)
    (hf : env.program.function? s.func = some decl) (hb : decl.body = some body) :
    P _ (Gen.generateBody generate s body span) := by
  obtain ⟨st, decl', argCount, at', -, hf', hres⟩ := hr.resolves
  refine h.generateBody (hg body (hp.body hf hb)) (fun q hq d hd => ?_) span
  obtain ⟨param, hparam, hdefault⟩ := hres.exists_default hq hd
  exact hg d (hp.default hf' hparam hdefault)

theorem specializeWith (h : Pervasive env I T P) (hp : env.program.AppliesAt T)
    (hg : ∀ n, n.AppliesAt T → P _ (generate n)) {signature : Signature}
    (ht : ∀ t ∈ signature.typeArgs, T t) {s : Specialization} (hr : s.Requested env I signature)
    (span : Span) : P _ (Gen.specialize generate s span) :=
  h.specialize span ht hr (h.bodyOf hp hg hr span)

theorem expressive (h : Pervasive env I T P) (hp : env.program.AppliesAt T)
    (hg : ∀ n, n.AppliesAt T → P _ (generate n)) :
    Expressive env I generate (Node.AppliesAt T) P (P Value) where
  toLinear := h.toLinear
  toConsumes := h.toLinear.consumes
  node := fun hn => hg _ hn
  part := fun hn hc => hn.part hc
  compareNullable := h.branching.compareNullable
  shortCircuit := fun op _ _ span hl hr => h.branching.shortCircuit op span (hg _ hl) (hg _ hr)
  conditional := fun hn => h.branching.conditional fun _ hc => hg _ (hn.part hc)
  specialize := fun _ span hn hs hr =>
    h.specializeWith hp hg (fun _ ht => hn.typeArg hs ht) hr span

theorem standard (h : Pervasive env I T P) (hp : env.program.AppliesAt T)
    (hg : ∀ n, n.AppliesAt T → P _ (generate n)) (hn : n.AppliesAt T) (kind : SyntaxKind) :
    P _ (Gen.standard generate kind n) := by
  cases hk : kind.isExpression with
  | true => exact (h.expressive hp hg).standard hn hk
  | false => exact h.statement (fun _ _ hc => hg _ (hn.part hc)) hk

/-- The code of every node has the property, whatever the registry. -/
theorem generateNode (h : Pervasive env I T P) (hp : env.program.AppliesAt T) :
    ∀ (depth : Nat) (n : Node), n.AppliesAt T → P _ (Gen.generate depth n)
  | 0, _, _ => h.aside (.throw (by simp))
  | depth + 1, n, hn => by
    refine h.seq (h.aside (.here fun _ => ⟨_, rfl⟩)) fun env' => ?_
    split
    · exact h.standard hp (h.generateNode hp depth) hn _
    · exact h.aside .fail

/-- Compiling an entry point has the property, if listing an export has. -/
theorem entry (h : Pervasive env I T P) (hp : env.program.AppliesAt T)
    (hx : ∀ name id, P _ (modifyUnit fun u => { u with module := u.module.addExport name id }))
    (func : FuncId) : P _ (Compiler.entry func) := by
  refine h.bind (h.aside (.functionDecl func)) ?_
  rintro decl ⟨st, st', hI, hdecl⟩
  split
  · exact h.aside .internal
  · split
    · exact h.aside .internal
    · refine h.bind (h.aside .program) ?_
      rintro p ⟨st₁, st₁', -, hprogram⟩
      cases hprogram
      refine h.bind (h.aside (.ofExcept _)) ?_
      rintro s ⟨st₂, st₂', -, hresolve⟩
      have hr : s.Requested env I ⟨func, []⟩ :=
        ⟨st, decl, _, _, hI, (functionDecl_ok hdecl).1,
          Specialization.resolve_ok (ofExcept_ok hresolve).1⟩
      refine h.seq (h.specializeWith hp (h.generateNode hp _) (by simp) hr _) fun id => ?_
      exact h.map (hx _ _) _

end Pervasive

end Gen

end TypedLowering
