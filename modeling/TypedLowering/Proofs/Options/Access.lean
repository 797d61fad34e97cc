import TypedLowering.Proofs.Coupling.Single
import TypedLowering.Proofs.Options.Twin

/-!
The steps whose code depends on the options: access to array elements and array literals. Each path
does nothing but add instructions to the current block and declare functions of the support library,
and it is refused exactly if the block already ends. Which path is taken makes no difference to the
rest of the unit.
-/
namespace TypedLowering
set_option autoImplicit false
open Ssa

namespace GenState

variable {raised raised' : Bool} {s t t' : GenState}

/-- Whether the current block ends. -/
def closed (s : GenState) : Bool := s.query false fun f => f.isTerminated s.frame.block

/-- A state inside a function, at known type arguments. -/
structure Ready (subst : Substitution) (s : GenState) : Prop where
  answers : s.unit.module.Answers
  current : ∃ f, s.unit.module.function? s.frame.function = some f
  subst : s.frame.subst = subst

/-- The frame stays, and the unit becomes nothing but what it may become under some options only. -/
structure Drifts (raised : Bool) (s t : GenState) : Prop where
  unit : s.unit.Drifts raised t.unit
  frame : t.frame = s.frame

namespace Drifts

theorem refl (s : GenState) : s.Drifts false s := ⟨.refl _, rfl⟩

theorem trans (h : s.Drifts raised t) (h' : t.Drifts raised' t') :
    s.Drifts (raised || raised') t' :=
  ⟨h.unit.trans h'.unit, h'.frame.trans h.frame⟩

theorem ready {subst : Substitution} (h : s.Drifts raised t) (hs : s.Ready subst) :
    t.Ready subst where
  answers := h.unit.module.answers hs.answers
  current := by
    obtain ⟨f, hf⟩ := hs.current
    obtain ⟨f', hf', -⟩ := h.unit.module.function hf
    exact ⟨f', by rw [h.frame, hf']⟩
  subst := by rw [h.frame, hs.subst]

theorem closed {subst : Substitution} (h : s.Drifts raised t) (hs : s.Ready subst) :
    t.closed = s.closed := by
  obtain ⟨f, hf⟩ := hs.current
  obtain ⟨f', hf', hm⟩ := h.unit.module.function hf
  have hf'' : t.unit.module.function? t.frame.function = some f' := by rw [h.frame, hf']
  unfold GenState.closed
  rw [t.query_eq hf'', s.query_eq hf, hm.isTerminated, h.frame]

/-- A change of the current function that does not show. -/
theorem mapFunction {f : Function} {g : Function → Function}
    (hf : s.unit.module.function? s.frame.function = some f) (hg : f.Matches (g f)) :
    s.Drifts false (s.mapFunction g) where
  unit := {
    module := .modifyFunction hf hg
    specializations := rfl, descriptors := rfl, collector := (Bool.or_false _).symm
    generated := rfl, cacheHits := rfl }
  frame := rfl

/-- A change that has nothing to do with functions or classes. -/
theorem of_quiet {p : Program} (h : s.Quiet p t) (hd : t.unit.descriptors = s.unit.descriptors) :
    s.Drifts false t where
  unit := {
    module := .of_eq h.toAlike.functions h.toAlike.symbols h.exports
    specializations := h.toAlike.specializations, descriptors := hd
    collector := by rw [h.collector, Bool.or_false]
    generated := h.toAlike.generated, cacheHits := h.toAlike.cacheHits }
  frame := h.toAlike.frame

end Drifts

end GenState

namespace Gen

variable {α β : Type} {env : Env} {subst : Substitution} {strict raised : Bool}
  {m : Gen α} {f : α → Gen β}

theorem run_bind_congr {m' : Gen α} {s : GenState} (h : m env s = m' env s) :
    (m >>= f) env s = (m' >>= f) env s := by
  rw [run_bind, h, run_bind]

theorem run_bind_of_ok {s t : GenState} {a : α} (h : m env s = .ok a t) :
    (m >>= f) env s = f a env t := by
  rw [run_bind, h]

/-- A computation that always comes to an end in the same way, whatever it adds to the unit: if it is
`strict`, it is refused in a block that ends. -/
def Solo (env : Env) (subst : Substitution) (strict raised : Bool) (m : Gen α) : Prop :=
  ∀ s : GenState, s.Ready subst →
    if s.closed && strict then ∃ t, m env s = .error .misplaced t
    else ∃ a t, m env s = .ok a t ∧ s.Drifts raised t

namespace Solo

/-- A step that always succeeds. -/
theorem step (h : ∀ s : GenState, s.Ready subst → ∃ a t, m env s = .ok a t ∧ s.Drifts raised t) :
    Solo env subst false raised m := fun s hs => by
  rw [Bool.and_false, if_neg Bool.false_ne_true]
  exact h s hs

protected theorem pure (a : α) : Solo env subst false false (pure a) :=
  step fun s _ => ⟨a, s, rfl, .refl s⟩

/-- A step that looks something up. -/
theorem look (h : ∀ s, ∃ a, m env s = .ok a s) : Solo env subst false false m :=
  step fun s _ => by
    obtain ⟨a, ha⟩ := h s
    exact ⟨a, s, ha, .refl s⟩

protected theorem bind (hm : Solo env subst strict raised m) (strict' raised' : Bool)
    (hf : ∀ a, Solo env subst strict' raised' (f a)) :
    Solo env subst (strict || strict') (raised || raised') (m >>= f) := by
  intro s hs
  have h := hm s hs
  by_cases hc : (s.closed && strict) = true
  · rw [if_pos hc] at h
    obtain ⟨t, ht⟩ := h
    have hc' : (s.closed && (strict || strict')) = true := by
      rw [Bool.and_eq_true] at hc ⊢
      exact ⟨hc.1, by rw [hc.2, Bool.true_or]⟩
    rw [if_pos hc']
    exact ⟨t, by rw [run_bind, ht]⟩
  · rw [if_neg hc] at h
    obtain ⟨a, t, ht, hd⟩ := h
    have hrest := hf a t (hd.ready hs)
    have hflag : (s.closed && (strict || strict')) = (t.closed && strict') := by
      rw [hd.closed hs, Bool.and_or_distrib_left, Bool.eq_false_of_not_eq_true hc, Bool.false_or]
    rw [hflag]
    split at hrest
    · next hc' =>
      obtain ⟨t', ht'⟩ := hrest
      rw [if_pos hc']
      exact ⟨t', (run_bind_of_ok ht).trans ht'⟩
    · next hc' =>
      obtain ⟨b, t', ht', hd'⟩ := hrest
      rw [if_neg hc']
      exact ⟨b, t', (run_bind_of_ok ht).trans ht', hd.trans hd'⟩

/-- One step more that changes nothing about the way it ends. -/
theorem after (hm : Solo env subst false false m) (hf : ∀ a, Solo env subst strict raised (f a)) :
    Solo env subst strict raised (m >>= f) := by
  have h := hm.bind strict raised hf
  rwa [Bool.false_or, Bool.false_or] at h

theorem requireOpen : Solo env subst true false Gen.requireOpen := by
  intro s _
  have hrun : Gen.requireOpen env s =
      (if s.closed then throw .misplaced else pure () : Gen Unit) env s := rfl
  rw [Bool.and_true, hrun]
  split
  · exact ⟨s, rfl⟩
  · exact ⟨(), s, rfl, .refl s⟩

/-- A change of the current function that does not show. -/
theorem modify {g : Function → Function} {q : GenState → α} (hg : ∀ f : Function, f.Matches (g f)) :
    Solo env subst false false (modifyGet fun s => (q s, s.mapFunction g)) :=
  step fun s hs => by
    obtain ⟨f, hf⟩ := hs.current
    exact ⟨_, _, rfl, .mapFunction hf (hg f)⟩

theorem emit (d : Definition) : Solo env subst true false (Gen.emit d) := by
  refine requireOpen.bind false false fun _ => step fun s hs => ?_
  obtain ⟨f, hf⟩ := hs.current
  exact ⟨_, _, rfl, .mapFunction hf ⟨rfl, rfl, f.ends_append s.frame.block d⟩⟩

theorem emitSlot (t : Ty) : Solo env subst false false (Gen.emitSlot t) :=
  modify fun f => ⟨rfl, rfl, f.ends_addSlot t⟩

theorem emitBinary (op : BinOp) (l r : ValueId) :
    Solo env subst true false (Gen.emitBinary op l r) :=
  .after (look fun _ => ⟨_, rfl⟩) fun _ => emit _

theorem emitSelect (c a b : ValueId) : Solo env subst true false (Gen.emitSelect c a b) :=
  .after (look fun _ => ⟨_, rfl⟩) fun _ => emit _

theorem emitStore (x p : ValueId) : Solo env subst true false (Gen.emitStore x p) :=
  (emit _).bind false false fun _ => .pure _

theorem callFunction (callee : FunctionId) (args : List ValueId) (attrs : Attributes) :
    Solo env subst true false (Gen.callFunction callee args attrs) :=
  .after (look fun s => ⟨s, rfl⟩) fun _ => emit _

theorem arrayHeader : Solo env subst false false Gen.arrayHeader :=
  step fun s _ => by
    cases hh : s.unit.arrayHeader with
    | some id =>
      refine ⟨id, s, ?_, .refl s⟩
      rw [Gen.arrayHeader, run_get, hh]
      rfl
    | none =>
      refine ⟨s.unit.module.nextStruct, s.withHeader, ?_, .of_quiet (.header (p := env.program) hh) rfl⟩
      rw [Gen.arrayHeader, run_get, hh]
      rfl

/-- A support function is declared without further ado. -/
theorem declareSupport (support : SupportFunction)
    (hs : support.Stores SupportFunction.Storable) (span : Span) :
    Solo env subst false false (declareExternal support.symbol support.params support.ret
      support.attributes support.variadic span) := by
  refine step fun s hready => ?_
  have hrun {id : FunctionId} {m : Module} (hd : s.unit.module.declare support.symbol support.params
      support.ret support.attributes support.variadic = .ok (id, m)) :
      declareExternal support.symbol support.params support.ret support.attributes support.variadic
        span env s = .ok id { s with unit := { s.unit with module := m } } := by
    rw [declareExternal, run_get, hd]
    rfl
  cases hl : s.unit.module.lookup support.symbol with
  | none =>
    obtain ⟨f, hd, hh, -⟩ := Module.declare_new support.params support.ret support.attributes
      support.variadic hl
    exact ⟨_, _, hrun hd, {
      unit := {
        module := .addFunction hready.answers hs hh
        specializations := rfl, descriptors := rfl, collector := (Bool.or_false _).symm
        generated := rfl, cacheHits := rfl }
      frame := rfl }⟩
  | some id =>
    obtain ⟨f, hf⟩ := hready.answers.bound hl
    have hh := hready.answers.support hs (Module.headingOf_of_lookup hl hf)
    exact ⟨_, _, hrun (Module.declare_known hl hf hh), .refl s⟩

theorem raise : Solo env subst false true (modifyUnit fun u => { u with gcRequired := true }) :=
  step fun _ _ => ⟨(), _, rfl, {
    unit := {
      module := .refl _
      specializations := rfl, descriptors := rfl, collector := (Bool.or_true _).symm
      generated := rfl, cacheHits := rfl }
    frame := rfl }⟩

theorem callSupport (support : SupportFunction) (hs : support.Stores SupportFunction.Storable)
    (args : List ValueId) (span : Span) :
    Solo env subst true support.allocates (Gen.callSupport support args span) := by
  refine (declareSupport support hs span).after fun callee => ?_
  cases support.allocates with
  | true => exact raise.bind true false fun _ => emit _
  | false => exact emit _

theorem elementAddress (l : ArrayLayout) (array index : ValueId) :
    Solo env subst true false (Gen.elementAddress l array index) :=
  arrayHeader.after fun _ => (emit _).bind true false fun _ =>
    (emit _).bind true false fun _ => emit _

variable {l : ArrayLayout} (hl : SupportFunction.Storable l.storage)

include hl

/-- Reading an element, with or without a check of the bounds. -/
theorem loadElement (array index : ValueId) (span : Span) :
    Solo env subst true false (Gen.loadElement l array index span) := by
  refine .after (look fun _ => ⟨env.config, rfl⟩) fun c => ?_
  split
  · exact callSupport (.arrayGet l.storage) hl _ _
  · exact (elementAddress l array index).bind true false fun _ => emit _

/-- Writing an element, with or without a check of the bounds. -/
theorem storeElement (array index value : ValueId) (span : Span) :
    Solo env subst true false (Gen.storeElement l array index value span) := by
  refine .after (look fun _ => ⟨env.config, rfl⟩) fun c => ?_
  split
  · exact (callSupport (.arraySet l.storage) hl _ _).bind false false
      fun _ => .pure _
  · exact (elementAddress l array index).bind true false fun _ =>
      emitStore _ _

/-! ## Array literals -/

theorem arrayOfOperands (elements : List ValueId) (span : Span) :
    Solo env subst true true (Gen.arrayOfOperands l elements span) :=
  (emit _).bind true true fun _ => callSupport (.arrayNew l.storage) hl _ _

theorem arrayOfConstants (data : List Constant) (span : Span) :
    Solo env subst true true (Gen.arrayOfConstants l data span) := by
  have literal : Solo env subst false false (addLiteralGlobal l.storage.type data) :=
    step fun s _ => ⟨_, s.withLiteral l.storage.type data, rfl,
      .of_quiet (.literal (p := env.program) _ _) rfl⟩
  exact literal.after fun _ => (emit _).bind true true fun _ =>
    (emit _).bind true true fun _ =>
      callSupport (.arrayFromBuffer l.storage) hl _ _

omit hl in
theorem congr {m' : Gen α} (h : Solo env subst strict raised m')
    (hm : ∀ s : GenState, s.Ready subst → m env s = m' env s) : Solo env subst strict raised m := by
  intro s hs
  rw [hm s hs]
  exact h s hs

end Solo

/-- Which elements are stored in place. -/
theorem type_of_storage {t : StaticType} {span : Span} {l : ArrayLayout}
    (hl : ArrayLayout.of t span = .ok l) :
    (l.storage.type = .i32 ∧ l.element = .int) ∨ (l.storage.type = .f64 ∧ l.element = .number) ∨
      (l.storage.type = .i1 ∧ l.element = .boolean) ∨ l.storage.type = .ptr := by
  unfold ArrayLayout.of at hl
  split at hl
  · split at hl <;> cases hl <;> simp [ElementStorage.type]
  · cases hl

/-- The literals that can be elements of a constant array: they have the type of its elements, or are
integers among numbers. -/
theorem constantElement_cases {t : StaticType} {span : Span} {l : ArrayLayout} {n : Node}
    {c : Constant} (hl : ArrayLayout.of t span = .ok l)
    (h : constantElement subst l n = .ok (some c)) :
    (∃ text c', n.form = .numericLiteral text ∧
      numericConstant text (n.type.substitute subst) n.span = .ok c' ∧
      (n.type.substitute subst = l.element ∧ c = c' ∨
        n.type.substitute subst = .int ∧ l.element = .number ∧
          ∃ i, c' = .i32 i ∧ NumericText.int? text = some i ∧ c = .float (.ofInt i))) ∨
    ∃ b, n.form = .booleanLiteral b ∧ l.element = .boolean ∧ c = .bool b := by
  unfold constantElement at h
  cases hform : n.form with
  | numericLiteral text =>
    rw [hform] at h
    obtain ⟨c', hc', h⟩ := except_bind_ok h
    refine .inl ⟨text, c', rfl, hc', ?_⟩
    unfold numericConstant at hc'
    split at hc'
    · next htype =>
      split at hc' <;> cases hc'
      next i hi =>
      rcases type_of_storage hl with ⟨hs, he⟩ | ⟨hs, he⟩ | ⟨hs, he⟩ | hs <;> rw [hs] at h
      · cases h
        exact .inl ⟨htype.trans he.symm, rfl⟩
      · simp only [Constant.i32, htype, if_true] at h
        cases h
        exact .inr ⟨htype, he, i, rfl, hi, rfl⟩
      · cases h
      · cases h
    · next htype =>
      split at hc' <;> cases hc'
      rcases type_of_storage hl with ⟨hs, he⟩ | ⟨hs, he⟩ | ⟨hs, he⟩ | hs <;> rw [hs] at h
      · cases h
      · cases h
        exact .inl ⟨htype.trans he.symm, rfl⟩
      · cases h
      · cases h
    · cases hc'
  | booleanLiteral b =>
    rw [hform] at h
    refine .inr ⟨b, rfl, ?_⟩
    rcases type_of_storage hl with ⟨hs, he⟩ | ⟨hs, he⟩ | ⟨hs, he⟩ | hs <;> rw [hs] at h
    · cases h
    · cases h
    · cases h
      exact ⟨he, rfl⟩
    · cases h
  | _ =>
    rw [hform] at h
    cases h

theorem castOperand_self (x : ValueId) (t : StaticType) (span : Span) :
    castOperand (.rvalue x t) t span = pure x := by
  unfold castOperand castImplicit
  rw [convert_self (v := .rvalue x t) (t := t) rfl, pure_bind]
  rfl

theorem castOperand_widen (x : ValueId) (span : Span) :
    castOperand (.rvalue x .int) .number span = emit (.cast .sitofp x .f64) := by
  show (do
    let v ← (do
      let e ← (do emit (.cast .sitofp (← pure x) .f64))
      return Value.rvalue e .number)
    operand v span) = _
  simp only [pure_bind, bind_assoc, operand, bind_pure]

/-- How a numeric literal is generated. -/
theorem generate_numeric {n : Node} {text : String} (hr : env.registry = .standard)
    (hform : n.form = .numericLiteral text) (depth : Nat) (s : GenState) :
    Gen.generate (depth + 1) n env s = (do
      let c ← ofExcept (numericConstant text (n.type.substitute s.frame.subst) n.span)
      return Value.rvalue (← emitConst c) (n.type.substitute s.frame.subst)) env s := by
  have hkind : n.kind = .numericLiteral := by
    rw [Node.kind, hform]
    rfl
  rw [Gen.generate, run_read, hr, hkind]
  show Gen.numericLiteral n env s = _
  unfold Gen.numericLiteral
  rw [hform]
  rfl

/-- How a boolean literal is generated. -/
theorem generate_boolean {n : Node} {b : Bool} (hr : env.registry = .standard)
    (hform : n.form = .booleanLiteral b) (depth : Nat) (s : GenState) :
    Gen.generate (depth + 1) n env s = (do return Value.rvalue (← emitBool b) .boolean) env s := by
  have hkind : n.kind = .booleanLiteral := by
    rw [Node.kind, hform]
    rfl
  rw [Gen.generate, run_read, hr, hkind]
  show Gen.booleanLiteral n env s = _
  unfold Gen.booleanLiteral
  rw [hform]

namespace Solo

variable {l : ArrayLayout} {t : StaticType} {span : Span} {depth : Nat}

/-- A constant that becomes an element. -/
theorem convertedConstant (c : Constant) {u : StaticType} (at' : Span)
    (hu : u = l.element ∨ u = .int ∧ l.element = .number) :
    Solo env subst true false (do castOperand (.rvalue (← emitConst c) u) l.element at') := by
  refine (emit _).bind (decide (u ≠ l.element)) false fun x => ?_
  rcases hu with rfl | ⟨rfl, he⟩
  · rw [castOperand_self, decide_eq_false (not_not_intro rfl)]
    exact .pure x
  · rw [he, castOperand_widen]
    exact emit _

/-- An element of a constant array, generated as an operand. -/
theorem constantElement (hr : env.registry = .standard) (hl : ArrayLayout.of t span = .ok l)
    {n : Node} {c : Constant} (h : Gen.constantElement subst l n = .ok (some c)) (depth : Nat) :
    Solo env subst true false (generateOperand (Gen.generate (depth + 1)) n l.element) := by
  have written (c : Constant) (u : StaticType)
      (hm : ∀ s : GenState, s.Ready subst →
        Gen.generate (depth + 1) n env s = (do return Value.rvalue (← emitConst c) u) env s)
      (hu : u = l.element ∨ u = .int ∧ l.element = .number) :
      Solo env subst true false (generateOperand (Gen.generate (depth + 1)) n l.element) := by
    refine (convertedConstant c n.span hu).congr fun s hs => (run_bind_congr (hm s hs)).trans ?_
    rw [bind_assoc]
    rfl
  rcases constantElement_cases hl h with ⟨text, c', hform, hc', hu⟩ | ⟨b, hform, he, -⟩
  · refine written c' _ (fun s hs => ?_) (hu.imp And.left fun hu => ⟨hu.1, hu.2.1⟩)
    rw [generate_numeric hr hform, hs.subst, hc']
    rfl
  · exact written (.bool b) .boolean (fun s _ => generate_boolean hr hform depth s) (.inl he.symm)

theorem constantElements (hr : env.registry = .standard) (hl : ArrayLayout.of t span = .ok l)
    (depth : Nat) : ∀ {elements : List Node} {data : List Constant},
      Gen.constantElements subst l elements = .ok (some data) →
      ∃ strict, Solo env subst strict false
        (elements.mapM fun e => generateOperand (Gen.generate (depth + 1)) e l.element)
  | [], _, _ => ⟨false, .pure []⟩
  | n :: rest, data, h => by
    obtain ⟨c, hc, h⟩ := except_bind_ok h
    cases c with
    | none => cases h
    | some c =>
      obtain ⟨rest', hrest, h⟩ := except_bind_ok h
      cases rest' with
      | none => cases h
      | some data' =>
        obtain ⟨strict, hs⟩ := constantElements hr hl depth hrest
        refine ⟨true, ?_⟩
        rw [List.mapM_cons]
        exact (constantElement hr hl hc depth).bind strict false fun x => by
          have := hs.bind false false fun xs => Solo.pure (x :: xs)
          rwa [Bool.or_false] at this

/-- Elements of a constant array that are not copied from constant data. -/
theorem arrayOfNodes (hr : env.registry = .standard) (hl : ArrayLayout.of t span = .ok l)
    {elements : List Node} {data : List Constant}
    (h : Gen.constantElements subst l elements = .ok (some data)) (depth : Nat) (at' : Span) :
    Solo env subst true true (Gen.arrayOfNodes (Gen.generate (depth + 1)) l elements at') := by
  obtain ⟨strict, hs⟩ := constantElements hr hl depth h
  have hall := hs.bind true true fun operands => arrayOfOperands (Roster.outlook.storage_of hl) operands at'
  rwa [Bool.or_true, Bool.false_or] at hall

end Solo

end Gen

end TypedLowering
