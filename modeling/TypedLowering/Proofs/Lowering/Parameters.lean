import TypedLowering.Proofs.Lowering.Arguments
import TypedLowering.Proofs.Lowering.Steadiness

/-!
How the arguments of a call reach the parameters of its function. Three walks over the parameters
have to agree: the resolution of the call decides which parameters are supplied, the call puts one
operand behind the other for these, and the body gives each parameter a stack slot, which starts with
the next low-level parameter or with the value of the default.

Main definitions:

- `FunctionDecl.Accepts`: the type arguments and numbers of arguments that a function can be called
  with;
- `Specialization.position`: the low-level parameter of a supplied parameter;
- `Gen.PassesFor`: the operand that a call passes for a parameter;
- `Gen.BindsAt`: how the body of a function binds a parameter.
-/
namespace TypedLowering
set_option autoImplicit false
open Ssa Ssa.Function

/-! ## Which calls are accepted -/

/-- A function can be called with type arguments and a number of arguments. -/
structure FunctionDecl.Accepts (decl : FunctionDecl) (typeArgs : List StaticType) (argCount : Nat) :
    Prop where
  typeArity : decl.typeParams.length = typeArgs.length
  arity : argCount ≤ decl.params.length ∨ ∃ q ∈ decl.params, q.variadic = true
  omitted : ∀ i q, decl.params[i]? = some q → q.variadic = false → argCount ≤ i →
    q.default.isSome = true
  params : ∀ q ∈ decl.params,
    (q.type.substitute (.ofList (decl.typeParams.zip typeArgs))).isGeneric = false
  ret : (decl.ret.substitute (.ofList (decl.typeParams.zip typeArgs))).isGeneric = false

namespace Specialization

variable {p : Program} {func : FuncId} {decl : FunctionDecl} {typeArgs : List StaticType}
  {argCount : Nat} {span : Span} {s : Specialization}

/-- Every parameter of the declaration has been resolved. -/
theorem Resolves.resolved_at (h : s.Resolves p func decl typeArgs argCount span) {i : Nat} {q : Param}
    (hq : decl.params[i]? = some q) :
    ∃ r, resolveParam p decl s.subst argCount span q i = .ok r := by
  obtain ⟨hlen, hget⟩ := List.forall₂_iff_get.mp h.params
  obtain ⟨hi, rfl⟩ := List.getElem?_eq_some_iff.mp hq
  have hi' : i < decl.params.zipIdx.length := by simpa using hi
  have hr := hget i hi' (hlen ▸ hi')
  simp only [List.get_eq_getElem, List.getElem_zipIdx, Nat.zero_add] at hr
  exact ⟨_, hr⟩

theorem Resolves.accepts (h : s.Resolves p func decl typeArgs argCount span)
    (harity : argCount ≤ decl.params.length ∨ decl.params.any (·.variadic) = true) :
    decl.Accepts typeArgs argCount where
  typeArity := h.arity
  arity := harity.imp_right List.any_eq_true.mp
  omitted := by
    intro i q hq hv hi
    obtain ⟨r, hr⟩ := h.resolved_at hq
    obtain ⟨-, hdefault, -, -, hsupplied, -, homitted⟩ := resolveParam_ok hr
    rw [← hdefault]
    refine homitted ?_
    rw [hsupplied, hv, Bool.false_or, decide_eq_false_iff_not]
    omega
  params := by
    intro q hq
    obtain ⟨i, hi⟩ := List.getElem?_of_mem hq
    obtain ⟨r, hr⟩ := h.resolved_at hi
    obtain ⟨htype, hclosed⟩ := concreteType_ok (resolveParam_ok hr).2.2.2.2.2.1
    rw [← h.subst_eq, ← htype]
    exact hclosed
  ret := by
    obtain ⟨htype, hclosed⟩ := concreteType_ok h.ret
    rw [← h.subst_eq, ← htype]
    exact hclosed

theorem concreteType_of_closed {name : String} {subst : Substitution} {t : StaticType}
    (h : (t.substitute subst).isGeneric = false) :
    concreteType name subst span t = .ok (t.substitute subst) := by
  simp [concreteType, h]

theorem exists_resolve (p : Program) (func : FuncId) (span : Span)
    (h : decl.Accepts typeArgs argCount) :
    ∃ s, resolve p func decl typeArgs argCount span = .ok s := by
  let subst : Substitution := .ofList (decl.typeParams.zip typeArgs)
  have hparam : ∀ q ∈ decl.params.zipIdx,
      ∃ r, resolveParam p decl subst argCount span q.1 q.2 = .ok r := by
    rintro ⟨q, i⟩ hq
    have hi : decl.params[i]? = some q := List.mem_zipIdx_iff_getElem?.mp hq
    have hmissing : ¬ (!(q.variadic || decide (i < argCount)) && q.default.isNone) = true := by
      intro hm
      simp only [Bool.and_eq_true, Bool.not_eq_true', Bool.or_eq_false_iff,
        decide_eq_false_iff_not, Nat.not_lt, Option.isNone_iff_eq_none] at hm
      obtain ⟨⟨hv, hle⟩, hnone⟩ := hm
      have hd := h.omitted i q hi hv hle
      rw [hnone] at hd
      cases hd
    unfold resolveParam
    dsimp only
    rw [if_neg hmissing, concreteType_of_closed (h.params q (List.mem_of_getElem? hi))]
    exact ⟨_, rfl⟩
  obtain ⟨params, hparams⟩ := except_mapM_exists hparam
  have hret : concreteType decl.name subst span decl.ret = .ok (decl.ret.substitute subst) :=
    concreteType_of_closed h.ret
  have harity : ¬ (decide (decl.params.length < argCount) && !decl.params.any (·.variadic)) = true := by
    intro hn
    simp only [Bool.and_eq_true, decide_eq_true_eq, Bool.not_eq_true'] at hn
    rcases h.arity with hle | hv
    · omega
    · rw [List.any_eq_true.mpr hv] at hn
      cases hn.2
  unfold resolve
  dsimp only
  rw [if_neg (not_not.mpr h.typeArity), if_neg harity, hparams, hret]
  exact ⟨_, rfl⟩

/-- A call resolves exactly if the function accepts it. -/
theorem exists_resolve_iff (p : Program) (func : FuncId) (decl : FunctionDecl)
    (typeArgs : List StaticType) (argCount : Nat) (span : Span) :
    (∃ s, resolve p func decl typeArgs argCount span = .ok s) ↔ decl.Accepts typeArgs argCount :=
  ⟨fun ⟨_, h⟩ => (resolve_ok h).accepts (resolve_arity h), exists_resolve p func span⟩

/-! ## Where a parameter is found -/

/-- The number of the low-level parameter for parameter `i`, if that is supplied: the receiver and
the supplied parameters before it come first. -/
def position (s : Specialization) (i : Nat) : Nat :=
  (if s.isInstance then 1 else 0) + ((s.params.take i).filter (·.supplied)).length

/-- What is selected at a place of a list stands behind what is selected before. -/
theorem getElem?_filter_of_getElem? {α : Type} {P : α → Bool} {l : List α} {i : Nat} {a : α}
    (ha : l[i]? = some a) (hP : P a = true) :
    (l.filter P)[((l.take i).filter P).length]? = some a := by
  obtain ⟨hi, rfl⟩ := List.getElem?_eq_some_iff.mp ha
  have hsplit : l.filter P = (l.take i).filter P ++ l[i] :: (l.drop (i + 1)).filter P := by
    conv_lhs => rw [← List.take_append_drop i l, List.drop_eq_getElem_cons hi]
    rw [List.filter_append, List.filter_cons_of_pos hP]
  rw [hsplit, List.getElem?_append_right (Nat.le_refl _), Nat.sub_self]
  rfl

theorem length_supplied_cons (q : ResolvedParam) (l : List ResolvedParam) :
    ((q :: l).filter (·.supplied)).length
      = ([q].filter (·.supplied)).length + (l.filter (·.supplied)).length := by
  rw [← List.length_append, ← List.filter_append, List.singleton_append]

/-- The low-level parameter of a supplied parameter has its type. -/
theorem loweredParams_position {params : List Ty} (h : s.loweredParams = .ok params) {i : Nat}
    {q : ResolvedParam} (hq : s.params[i]? = some q) (hs : q.supplied = true) {t : Ty}
    (ht : q.type.lowered q.span = .ok t) : params[s.position i]? = some t := by
  obtain ⟨rest, rfl, hrest⟩ := loweredParams_ok h
  have hfirst : (if s.isInstance then [Ty.ptr] else []).length = if s.isInstance then 1 else 0 := by
    cases s.isInstance <;> rfl
  have hat := getElem?_filter_of_getElem? (P := (·.supplied)) hq hs
  obtain ⟨hlen, hget⟩ := List.forall₂_iff_get.mp hrest
  obtain ⟨hi, hqi⟩ := List.getElem?_eq_some_iff.mp hat
  have hlowered := hget _ hi (hlen ▸ hi)
  simp only [List.get_eq_getElem] at hlowered
  rw [show s.suppliedParams[_] = q from hqi, ht] at hlowered
  rw [position, ← hfirst, List.getElem?_append_right (Nat.le_add_right _ _), Nat.add_sub_cancel_left]
  rw [List.getElem?_eq_getElem (hlen ▸ hi), ← Except.ok.inj hlowered]

/-- A rest parameter is supplied, whatever the number of arguments. -/
theorem Resolves.supplied_of_variadic (h : s.Resolves p func decl typeArgs argCount span)
    {r : ResolvedParam} (hr : r ∈ s.params) (hv : r.variadic = true) : r.supplied = true := by
  obtain ⟨q, -, i, hi⟩ := h.exists_param hr
  obtain ⟨-, -, hvariadic, -, hsupplied, -⟩ := resolveParam_ok hi
  rw [hsupplied, ← hvariadic, hv, Bool.true_or]

end Specialization

namespace Gen

variable {env : Env} {generate : Generate} {args : List Node} {span : Span}

/-! ## The operands of a call -/

/-- From one state to another, a call generates its operand for parameter `i`: the argument at its
place, or for a rest parameter the array of all arguments from there on, possibly none. -/
inductive PassesFor (env : Env) (generate : Generate) (args : List Node) (span : Span) (i : Nat)
    (p : ResolvedParam) (s : GenState) (x : ValueId) (s' : GenState) : Prop where
  | argument {a : Node} (single : p.variadic = false) (place : args[i]? = some a)
      (run : generateOperand generate a p.type env s = .ok x s')
  | packed {l : ArrayLayout} {elements : List ValueId} {t : GenState} (rest : p.variadic = true)
      (layout : ArrayLayout.of p.type p.span = .ok l)
      (run : ((args.drop i).mapM fun a => generateOperand generate a l.element) env s
        = .ok elements t)
      (pack : arrayOfOperands l elements span env t = .ok x s')

/-- The layout of the array that a rest parameter receives. -/
def restLayout (p : ResolvedParam) : Gen ArrayLayout :=
  match p.type with
  | .array _ => ofExcept (ArrayLayout.of p.type p.span)
  | _ => internal "rest parameter without an array type" p.span

theorem restLayout_ok {p : ResolvedParam} {l : ArrayLayout} {s s' : GenState}
    (h : restLayout p env s = .ok l s') : ArrayLayout.of p.type p.span = .ok l ∧ s' = s := by
  unfold restLayout at h
  cases ht : p.type with
  | array element =>
    rw [ht] at h
    exact ofExcept_ok h
  | _ =>
    rw [ht] at h
    exact (internal_ok h).elim

/-- The operands for one parameter: one if it is supplied, else none. -/
def operandsFor (generate : Generate) (args : List Node) (span : Span) (index : Nat)
    (p : ResolvedParam) : Gen (List ValueId) := do
  if p.variadic then do
    let l ← restLayout p
    let elements ← (args.drop index).mapM fun a => generateOperand generate a l.element
    pure [← arrayOfOperands l elements span]
  else if p.supplied then
    match args[index]? with
    | some a => do pure [← generateOperand generate a p.type]
    | none => throw .dangling
  else pure []

theorem argumentOperands_cons (generate : Generate) (args : List Node) (span : Span) (index : Nat)
    (p : ResolvedParam) (rest : List ResolvedParam) :
    argumentOperands generate args span index (p :: rest) = do
      let here ← operandsFor generate args span index p
      return here ++ (← argumentOperands generate args span (index + 1) rest) := by
  rw [argumentOperands, operandsFor, restLayout]
  split
  · cases p.type <;> simp only [bind_assoc, pure_bind]
  · split
    · cases args[index]? <;> simp only [bind_assoc, pure_bind]
    · simp only [pure_bind]

theorem operandsFor_ok {index : Nat} {p : ResolvedParam} (hv : p.variadic = true → p.supplied = true)
    {here : List ValueId} {s s' : GenState}
    (h : operandsFor generate args span index p env s = .ok here s') :
    (p.supplied = true ∧ ∃ x, here = [x] ∧ PassesFor env generate args span index p s x s') ∨
      (p.supplied = false ∧ here = []) := by
  unfold operandsFor at h
  split at h
  · next hr =>
    obtain ⟨l, s₁, hl, hmore⟩ := bind_ok h
    obtain ⟨hlayout, rfl⟩ := restLayout_ok hl
    obtain ⟨elements, s₂, helements, hmore⟩ := bind_ok hmore
    obtain ⟨x, s₃, hx, hmore⟩ := bind_ok hmore
    obtain ⟨rfl, rfl⟩ := pure_ok hmore
    exact .inl ⟨hv hr, x, rfl, .packed hr hlayout helements hx⟩
  · next hr =>
    have hr : p.variadic = false := by simpa using hr
    split at h
    · next hs =>
      cases ha : args[index]? with
      | none =>
        rw [ha] at h
        exact (throw_ok h).elim
      | some a =>
        rw [ha] at h
        obtain ⟨x, s₁, hx, h⟩ := bind_ok h
        obtain ⟨rfl, rfl⟩ := pure_ok h
        exact .inl ⟨hs, x, rfl, .argument hr ha hx⟩
    · next hs =>
      obtain ⟨rfl, rfl⟩ := pure_ok h
      exact .inr ⟨by simpa using hs, rfl⟩

/-- The operands of a call stand in the order of the supplied parameters, one for each. -/
theorem argumentOperands_at {params : List ResolvedParam}
    (hv : ∀ p ∈ params, p.variadic = true → p.supplied = true) {index : Nat}
    {operands : List ValueId} {s s' : GenState}
    (h : argumentOperands generate args span index params env s = .ok operands s') :
    operands.length = (params.filter (·.supplied)).length ∧
      ∀ i p, params[i]? = some p → p.supplied = true → ∃ before s₁ x s₂,
        argumentOperands generate args span index (params.take i) env s = .ok before s₁ ∧
        PassesFor env generate args span (index + i) p s₁ x s₂ ∧
        operands[((params.take i).filter (·.supplied)).length]? = some x := by
  induction params generalizing index operands s with
  | nil =>
    cases h
    refine ⟨rfl, fun i p hp => ?_⟩
    cases hp
  | cons q rest ih =>
    rw [argumentOperands_cons] at h
    obtain ⟨here, s₁, hhere, h⟩ := bind_ok h
    obtain ⟨more, s₂, hmore, h⟩ := bind_ok h
    obtain ⟨rfl, rfl⟩ := pure_ok h
    obtain ⟨hlen, hat⟩ := ih (fun p hp => hv p (List.mem_cons_of_mem _ hp)) hmore
    have hone : here.length = ([q].filter (·.supplied)).length := by
      rcases operandsFor_ok (hv q List.mem_cons_self) hhere with ⟨hs, x, rfl, -⟩ | ⟨hs, rfl⟩ <;>
        simp [hs]
    refine ⟨by rw [List.length_append, hlen, Specialization.length_supplied_cons, hone],
      fun i p hp hs => ?_⟩
    cases i with
    | zero =>
      obtain rfl : q = p := by simpa using hp
      rcases operandsFor_ok (hv q List.mem_cons_self) hhere with ⟨-, x, rfl, hx⟩ | ⟨hn, -⟩
      · exact ⟨[], s, x, s₁, rfl, hx, rfl⟩
      · cases hs.symm.trans hn
    | succ i =>
      obtain ⟨before, s₃, x, s₄, hbefore, hx, hget⟩ := hat i p (by simpa using hp) hs
      refine ⟨here ++ before, s₃, x, s₄, ?_, by rwa [Nat.add_right_comm] at hx, ?_⟩
      · rw [List.take_succ_cons, argumentOperands_cons, run_bind, hhere]
        show (argumentOperands _ _ _ _ _ >>= _) env s₁ = _
        rw [run_bind, hbefore]
        rfl
      · rw [List.take_succ_cons, Specialization.length_supplied_cons, ← hone,
          List.getElem?_append_right (Nat.le_add_right _ _), Nat.add_sub_cancel_left]
        exact hget

/-- The steps of a call that has been resolved. -/
theorem emitCall_ok {signature : Signature} {receiver : Option ValueId} {s t : GenState} {v : Value}
    {decl : FunctionDecl} {sp : Specialization}
    (hdecl : env.program.function? signature.func = some decl)
    (hsp : Specialization.resolve env.program signature.func decl
      (signature.typeArgs.map (·.substitute s.frame.subst)) args.length span = .ok sp)
    (h : emitCall generate signature receiver args span env s = .ok v t) :
    ∃ operands s₁ callee s₂ result s₃,
      argumentOperands generate args span 0 sp.params env s = .ok operands s₁ ∧
      specialize generate sp span env s₁ = .ok callee s₂ ∧
      callFunction callee (receiver.toList ++ operands) .none env s₂ = .ok result s₃ := by
  obtain ⟨typeArgs, s₁, htypes, h⟩ := bind_ok h
  obtain ⟨rfl, rfl⟩ := mapM_resolveType_ok htypes
  obtain ⟨decl', s₁, hlook, h⟩ := bind_ok h
  obtain ⟨hdecl', rfl⟩ := functionDecl_ok hlook
  obtain rfl : decl = decl' := Option.some.inj (hdecl.symm.trans hdecl')
  obtain ⟨program, s₁, hprogram, h⟩ := bind_ok h
  cases hprogram
  obtain ⟨sp', s₁, hresolve, h⟩ := bind_ok h
  obtain ⟨hsp', rfl⟩ := ofExcept_ok hresolve
  obtain rfl : sp = sp' := Except.ok.inj (hsp.symm.trans hsp')
  obtain ⟨operands, s₁, hoperands, h⟩ := bind_ok h
  obtain ⟨callee, s₂, hcallee, h⟩ := bind_ok h
  obtain ⟨result, s₃, hresult, -⟩ := bind_ok h
  exact ⟨operands, s₁, callee, s₂, result, s₃, hoperands, hcallee, hresult⟩

end Gen

/-! ## The slots of parameters -/

/-- A stack slot for values of a low-level type, and the instruction numbered next, which stores a
value in it. -/
structure Ssa.Function.Initializes (f : Function) (slot : ValueId) (lowered : Ty) (x : ValueId) :
    Prop where
  isSlot : slot ∈ f.slots
  alloca : f.definition? slot = some ⟨.alloca lowered, .ptr⟩
  placed : ∃ b, (⟨slot.index + 1⟩ : ValueId) ∈ f.body b
  store : f.definition? ⟨slot.index + 1⟩ = some (.store x slot)

namespace Ssa.Function.Initializes

variable {f g : Function} {slot x : ValueId} {lowered : Ty}

/-- What has been stored stays while the function grows. -/
theorem within (h : f.Initializes slot lowered x) (hg : f.Within g) : g.Initializes slot lowered x where
  isSlot := hg.slots.subset h.isSlot
  alloca := hg.values h.alloca
  placed := by
    obtain ⟨c, hc⟩ := h.placed
    exact ⟨c, (hg.body c).subset hc⟩
  store := hg.values h.store

/-- A new slot, and a store into it at the end of a block. -/
theorem of_addSlot (hf : f.Shaped) {b : BlockId} (hb : f.HasBlock b) (lowered : Ty) (x : ValueId) :
    ((f.addSlot lowered).append b (.store x f.nextValue)).Initializes f.nextValue lowered x := by
  have hshaped := shaped_addSlot lowered hf
  have hnext : (f.addSlot lowered).nextValue = ⟨f.nextValue.index + 1⟩ := by
    simp [nextValue]
  have hslot : (f.addSlot lowered).definition? f.nextValue = some ⟨.alloca lowered, .ptr⟩ := by
    simp [definition?, nextValue]
  refine ⟨?_, ?_, ⟨b, ?_⟩, ?_⟩
  · rw [slots_append _ hshaped, slots_addSlot _ hf]
    exact List.mem_append_right _ List.mem_cons_self
  · exact definition?_of_push (values_append _ _ _) hslot
  · rw [body_append _ hshaped (by simpa using hb), if_pos rfl, hnext]
    exact List.mem_append_right _ List.mem_cons_self
  · rw [← hnext, definition?_append_next]

end Ssa.Function.Initializes

namespace Gen

variable {env : Env} {generate : Generate}

/-! ## Binding parameters -/

/-- From one state to another, the body of a function comes to the operand that a parameter starts
with: the low-level parameter of some number if it is supplied, else the value of its default. -/
inductive StartsWith (env : Env) (generate : Generate) (number : Nat) (p : ResolvedParam)
    (s : GenState) (x : ValueId) (s' : GenState) : Prop where
  | passed (supplied : p.supplied = true) (operand : x = Function.param number) (same : s' = s)
  | default {d : Node} (omitted : p.supplied = false) (expression : p.default = some d)
      (run : generateOperand generate d p.type env s = .ok x s')

/-- Parameter `i` of a list whose first has the low-level parameter `first`: its operand `x`, for
which only the names of the parameters before it have entered the scope, is put into a slot of the
function, and the name is bound to the slot. -/
structure BindsAt (env : Env) (generate : Generate) (start : GenState) (first : Nat)
    (params : List ResolvedParam) (f : Function) (i : Nat) (p : ResolvedParam) (slot : ValueId)
    (before after bound : GenState) (x : ValueId) (lowered : Ty) : Prop where
  earlier : bindParams generate first (params.take i) env start = .ok () before
  scope : ∀ name, (before.frame.scope.get? name).isSome = true ↔
    (start.frame.scope.get? name).isSome = true ∨ ∃ q ∈ params.take i, q.name = name
  operand : StartsWith env generate (first + ((params.take i).filter (·.supplied)).length) p before x
    after
  layout : p.type.lowered p.span = .ok lowered
  initializes : f.Initializes slot lowered x
  through : bindParams generate first (params.take (i + 1)) env start = .ok () bound
  named : bound.frame.scope.get? p.name = some (.slot slot lowered p.type)

/-- What is bound stays bound while the function grows. -/
theorem BindsAt.within {start before after bound : GenState} {first : Nat}
    {params : List ResolvedParam} {f g : Function} {i : Nat} {p : ResolvedParam} {slot x : ValueId}
    {lowered : Ty}
    (h : BindsAt env generate start first params f i p slot before after bound x lowered)
    (hg : f.Within g) :
    BindsAt env generate start first params g i p slot before after bound x lowered :=
  { h with initializes := h.initializes.within hg }

/-- One parameter, where the next low-level parameter is known. -/
def bindParam (generate : Generate) (next : Nat) (p : ResolvedParam) : Gen Unit :=
  if p.supplied then bindLocal p.name (Function.param next) p.type p.span
  else
    match p.default with
    | some d => do bindLocal p.name (← generateOperand generate d p.type) p.type p.span
    | none => internal "omitted parameter without a default" p.span

theorem bindParams_cons (generate : Generate) (next : Nat) (p : ResolvedParam)
    (rest : List ResolvedParam) :
    bindParams generate next (p :: rest) = (do
      bindParam generate next p
      bindParams generate (next + ([p].filter (·.supplied)).length) rest) := by
  rw [bindParams, bindParam]
  cases hs : p.supplied with
  | true => simp [hs]
  | false =>
    cases p.default with
    | some d => simp [hs]
    | none => rfl

/-- How a parameter is bound behind the first one. -/
theorem BindsAt.cons {start next before after bound : GenState} {first : Nat} {q : ResolvedParam}
    {rest : List ResolvedParam} {f : Function} {i : Nat} {p : ResolvedParam} {slot x : ValueId}
    {lowered : Ty} (hq : bindParam generate first q env start = .ok () next)
    (hnames : ∀ name, (next.frame.scope.get? name).isSome = true ↔
      (start.frame.scope.get? name).isSome = true ∨ q.name = name)
    (h : BindsAt env generate next (first + ([q].filter (·.supplied)).length) rest f i p slot before
      after bound x lowered) :
    BindsAt env generate start first (q :: rest) f (i + 1) p slot before after bound x lowered := by
  have hrun (l : List ResolvedParam) : bindParams generate first (q :: l) env start
      = bindParams generate (first + ([q].filter (·.supplied)).length) l env next := by
    rw [bindParams_cons, run_bind, hq]
  exact {
    earlier := by rw [List.take_succ_cons, hrun]; exact h.earlier
    scope := by
      intro name
      rw [h.scope, hnames]
      simp only [List.take_succ_cons, List.mem_cons, exists_eq_or_imp, or_assoc]
    operand := by
      rw [List.take_succ_cons, Specialization.length_supplied_cons, ← Nat.add_assoc]
      exact h.operand
    layout := h.layout
    initializes := h.initializes
    through := by rw [List.take_succ_cons, hrun]; exact h.through
    named := h.named }

/-- Binding a local adds a stack slot and a store, and puts the name in scope. -/
theorem bindLocal_generates {name : String} {x : ValueId} {type : StaticType} {span : Span}
    {a : Unit} {s t : GenState} {f : Function} (hs : s.Generates f)
    (h : bindLocal name x type span env s = .ok a t) :
    ∃ lowered, type.lowered span = .ok lowered ∧
      t.Generates ((f.addSlot lowered).append s.frame.block (.store x f.nextValue)) ∧
      t.frame = { s.frame with scope := s.frame.scope.bindSlot name f.nextValue lowered type } := by
  obtain ⟨lowered, s₁, hrun, hslot⟩ := bind_ok h
  obtain ⟨hlowered, rfl⟩ := ofExcept_ok hrun
  obtain ⟨slot, s₂, hrun, hstore⟩ := bind_ok hslot
  cases hrun
  obtain ⟨u, s₃, hrun, hscope⟩ := bind_ok hstore
  obtain ⟨stored, s₄, hemit, hpure⟩ := bind_ok hrun
  cases hpure
  cases hscope
  have hslots := s₁.function?_mapFunction hs.function fun f => f.addSlot lowered
  have hnext : s₁.query .absent Function.nextValue = f.nextValue := s₁.query_eq hs.function
  obtain rfl := Leads.ok (Q := fun _ t => t = _) (.emit rfl (E := fun _ _ => True) trivial) hemit
  rw [← hnext]
  refine ⟨lowered, hlowered, ⟨?_, ?_, ?_⟩, rfl⟩
  · exact GenState.function?_mapFunction (s₁.mapFunction fun f => f.addSlot lowered) hslots _
  · exact shaped_append _ (shaped_addSlot lowered hs.shaped)
  · exact (hasBlock_append _).mpr ((hasBlock_addSlot lowered).mpr hs.inBlock)

/-- What binding one parameter comes to. -/
theorem bindParam_stores {next : Nat} {p : ResolvedParam}
    (hd : ∀ d, p.default = some d → AbidesValue env (generate d)) {a : Unit} {s t : GenState}
    {f : Function} (hs : s.Generates f) (h : bindParam generate next p env s = .ok a t) :
    ∃ (s₁ : GenState) (g : Function) (v : ValueId) (lowered : Ty), s.Steady s₁ [] ∧ s₁.Generates g ∧
      f.Within g ∧ StartsWith env generate next p s v s₁ ∧ p.type.lowered p.span = .ok lowered ∧
      t.Generates ((g.addSlot lowered).append s₁.frame.block (.store v g.nextValue)) ∧
      t.frame = { s₁.frame with
        scope := s₁.frame.scope.bindSlot p.name g.nextValue lowered p.type } := by
  unfold bindParam at h
  split at h
  · next hsupplied =>
    obtain ⟨lowered, hlowered, ht, hframe⟩ := bindLocal_generates hs h
    exact ⟨s, f, _, lowered, .refl hs, hs, .refl f, .passed hsupplied rfl rfl, hlowered, ht, hframe⟩
  · next hsupplied =>
    have hsupplied : p.supplied = false := by simpa using hsupplied
    cases hdef : p.default with
    | none =>
      rw [hdef] at h
      exact (internal_ok h).elim
    | some d =>
      rw [hdef] at h
      obtain ⟨v, s₁, hv, h⟩ := bind_ok h
      have hsteady : s.Steady s₁ [] :=
        (Abides.consumes.operandOf Abides.linear (hd d hdef) p.type s [] s (.refl hs)).ok hv
      obtain ⟨g, hg, hfg⟩ := hsteady.generates hs
      obtain ⟨lowered, hlowered, ht, hframe⟩ := bindLocal_generates hg h
      exact ⟨s₁, g, v, lowered, hsteady, hg, hfg, .default hsupplied hdef hv, hlowered, ht, hframe⟩

/-- The parameters get one slot each, in their order, and each is bound as `BindsAt` says. -/
theorem bindParams_binds {params : List ResolvedParam}
    (hd : ∀ p ∈ params, ∀ d, p.default = some d → AbidesValue env (generate d)) {first : Nat}
    {a : Unit} {s t : GenState} {f : Function} (hs : s.Generates f)
    (h : bindParams generate first params env s = .ok a t) :
    ∃ (g : Function) (slots : List ValueId), t.Generates g ∧ f.Within g ∧
      t.frame.function = s.frame.function ∧ slots.length = params.length ∧
      (∀ slot ∈ slots, f.values.size ≤ slot.index) ∧
      slots.Pairwise (fun v v' => v.index + 1 < v'.index) ∧
      ∀ i p slot, params[i]? = some p → slots[i]? = some slot →
        ∃ before after bound x lowered,
          BindsAt env generate s first params g i p slot before after bound x lowered := by
  induction params generalizing first s f with
  | nil =>
    cases h
    exact ⟨f, [], hs, .refl f, rfl, rfl, by simp, .nil, by simp⟩
  | cons q rest ih =>
    rw [bindParams_cons] at h
    obtain ⟨u, t₁, h₁, h⟩ := bind_ok h
    obtain ⟨s₁, g, v, lowered, hsteady, hg, hfg, hstart, hlowered, ht₁, hframe⟩ :=
      bindParam_stores (hd q List.mem_cons_self) hs h₁
    obtain ⟨k, slots, ht, hwithin, hfn, hlen, habove, hpair, hbinds⟩ :=
      ih (fun p hp => hd p (List.mem_cons_of_mem _ hp)) ht₁ h
    -- the slot of `q` and the store come right behind what was there before
    have hbefore : f.values.size ≤ g.values.size := hfg.size_values
    have hstored : g.Within ((g.addSlot lowered).append s₁.frame.block (.store v g.nextValue)) :=
      (within_addSlot hg.shaped lowered).trans
        (within_append (shaped_addSlot lowered hg.shaped) _ _)
    have hlater (slot : ValueId) (hslot : slot ∈ slots) : g.values.size + 1 < slot.index := by
      have hle := habove slot hslot
      simp only [values_append, values_addSlot, Array.size_push] at hle
      omega
    have hinit := Initializes.of_addSlot hg.shaped hg.inBlock lowered v
    have hnames (name : String) : (t₁.frame.scope.get? name).isSome = true ↔
        (s.frame.scope.get? name).isSome = true ∨ q.name = name := by
      rw [hframe, ← hsteady.scope]
      show ((s₁.frame.scope.bindSlot q.name g.nextValue lowered q.type).get? name).isSome = true ↔ _
      rw [Scope.bindSlot]
      by_cases hname : q.name = name
      · simp [hname]
      · simp [hname, Dict.get?_insert_of_ne _ _ hname]
    refine ⟨k, g.nextValue :: slots, ht, (hfg.trans hstored).trans hwithin, ?_, by simp [hlen], ?_,
      List.pairwise_cons.mpr ⟨hlater, hpair⟩, ?_⟩
    · rw [hfn, hframe]
      exact hsteady.enlarged.function
    · intro slot hslot
      rcases List.mem_cons.mp hslot with rfl | hslot
      · exact hbefore
      · have hlt := hlater slot hslot
        omega
    · intro i p slot hp hslot
      cases i with
      | zero =>
        obtain rfl : q = p := by simpa using hp
        obtain rfl : g.nextValue = slot := by simpa using hslot
        refine ⟨s, s₁, t₁, v, lowered, ?_⟩
        exact {
          earlier := rfl
          scope := by simp
          operand := hstart
          layout := hlowered
          initializes := hinit.within hwithin
          through := by
            rw [List.take_succ_cons, bindParams_cons, run_bind, h₁]
            rfl
          named := by
            rw [hframe]
            exact Dict.get?_insert_self _ _ _ }
      | succ i =>
        obtain ⟨before, after, bound, x', lowered', hb⟩ :=
          hbinds i p slot (by simpa using hp) (by simpa using hslot)
        exact ⟨before, after, bound, x', lowered', .cons h₁ hnames hb⟩

/-! ## The body of a specialization -/

/-- Where the body of a definition starts: in the function with the low-level parameters, where no
name is in scope. -/
structure BeginsAt (start : GenState) (id : FunctionId) (params : List Ty) : Prop where
  function : start.frame.function = id
  scope : start.frame.scope = .empty
  generates : ∃ f, start.Generates f ∧ f.params = params

theorem beginsAt_started (s : GenState) (sp : Specialization) (symbol : String) (params : List Ty)
    (ret : Ty) : BeginsAt (s.started sp symbol params ret) s.unit.module.nextFunction params where
  function := rfl
  scope := rfl
  generates := by
    refine ⟨(Function.shell symbol params ret .internal).addBlock "entry", ⟨?_, ⟨?_, ?_⟩, ?_⟩, rfl⟩
    · exact s.unit.module.function?_addFunction_next _
    · simp
    · intro block _
      exact Nat.zero_le _
    · simp [HasBlock, GenState.started, Function.entry]

/-- The receiver of a method is known before the parameters are bound. -/
theorem generateBody_begins {sp : Specialization} {body : Node} {span : Span} {id : FunctionId}
    {params : List Ty} {s t : GenState} (hs : BeginsAt s id params)
    (h : generateBody generate sp body span env s = .ok () t) :
    ∃ start, BeginsAt start id params ∧ bodyRest generate sp body env start = .ok () t := by
  unfold generateBody at h
  unfold bodyRest
  cases hi : sp.isInstance with
  | false =>
    simp only [hi, Bool.false_eq_true, if_false] at h ⊢
    exact ⟨s, hs, h⟩
  | true =>
    simp only [hi, if_true] at h ⊢
    cases ho : sp.owner with
    | none =>
      rw [ho] at h
      obtain ⟨_, _, hrun, _⟩ := bind_ok h
      exact (internal_ok hrun).elim
    | some owner =>
      rw [ho] at h
      obtain ⟨d, s₁, hrun, hthis⟩ := bind_ok h
      have halike := (Aside.descriptor owner s).ok hrun
      obtain ⟨f, hf, hparams⟩ := hs.generates
      refine ⟨_, ⟨?_, ?_, f, ⟨?_, hf.shaped, ?_⟩, hparams⟩, hthis⟩
      · exact (congrArg Frame.function halike.frame).trans hs.function
      · exact (congrArg Frame.scope halike.frame).trans hs.scope
      · show s₁.unit.module.function? s₁.frame.function = some f
        rw [halike.frame, halike.function?]
        exact hf.function
      · show f.HasBlock s₁.frame.block
        rw [halike.frame]
        exact hf.inBlock

/-- A definition that has not been there before. -/
theorem specialize_begins {sp : Specialization} {decl : FunctionDecl} {body : Node} {params : List Ty}
    {span : Span} {s t : GenState} {id : FunctionId}
    (hdecl : env.program.function? sp.func = some decl) (hbody : decl.body = some body)
    (hparams : sp.loweredParams = .ok params)
    (hnone : s.unit.specializations.get? (sp.symbol env.program) = none)
    (h : specialize generate sp span env s = .ok id t) :
    ∃ start finish, BeginsAt start id params ∧
      bodyRest generate sp body env start = .ok () finish ∧ finish.unit = t.unit := by
  refine Leads.ok (Q := fun id t => ∃ start finish, BeginsAt start id params ∧
    bodyRest generate sp body env start = .ok () finish ∧ finish.unit = t.unit)
    (specialize_leads (E := fun _ _ => True) (fun _ _ _ => trivial) ?_ ?_ ?_) h
  · intro decl' params' ret hdecl' hnobody
    cases hdecl.symm.trans hdecl'
    cases hbody.symm.trans hnobody
  · intro decl' body' params' id' _ _ _ hcached
    cases hnone.symm.trans hcached
  · intro decl' body' params' ret hdecl' hbody' hparams' _ _
    cases hdecl.symm.trans hdecl'
    cases hbody.symm.trans hbody'
    cases hparams.symm.trans hparams'
    refine .intro (fun _ finish hrun => ?_) fun _ _ _ => trivial
    obtain ⟨start, hstart, hrest⟩ :=
      generateBody_begins (beginsAt_started s sp (sp.symbol env.program) params ret) hrun
    exact ⟨start, finish, hstart, hrest, rfl⟩

/-- What the low-level call of a specialization passes: the receiver, then an operand for each
supplied parameter, generated in their order, at the number where the specialization has it. -/
structure Delivers (env : Env) (generate : Generate) (sp : Specialization) (params : List Ty)
    (receiver : Option ValueId) (args : List Node) (span : Span) (s : GenState)
    (operands : List ValueId) : Prop where
  run : ∃ s₁ callee s₂ result s₃,
    argumentOperands generate args span 0 sp.params env s = .ok operands s₁ ∧
    specialize generate sp span env s₁ = .ok callee s₂ ∧
    callFunction callee (receiver.toList ++ operands) .none env s₂ = .ok result s₃
  length : (receiver.toList ++ operands).length = params.length
  operand : ∀ i p, sp.params[i]? = some p → p.supplied = true → ∃ before s₁ x s₂,
    argumentOperands generate args span 0 (sp.params.take i) env s = .ok before s₁ ∧
    PassesFor env generate args span i p s₁ x s₂ ∧
    (receiver.toList ++ operands)[sp.position i]? = some x

/-- What becomes of the parameters in the body of a specialization, a function with low-level
parameters `params`: each has a slot, which starts with the operand that `BindsAt` says. The slots are
numbered in the order of the parameters, each store behind its slot. -/
structure Accommodates (env : Env) (generate : Generate) (sp : Specialization) (params : List Ty)
    (body : Node) (id : FunctionId) (u : UnitState) (start : GenState) (f : Function)
    (slots : List ValueId) : Prop where
  function : start.frame.function = id
  scope : start.frame.scope = .empty
  run : ∃ finish, bodyRest generate sp body env start = .ok () finish ∧ finish.unit = u
  definition : u.module.function? id = some f
  lowered : f.params = params
  length : slots.length = sp.params.length
  order : slots.Pairwise fun v v' => v.index + 1 < v'.index
  binds : ∀ i p slot, sp.params[i]? = some p → slots[i]? = some slot →
    ∃ before after bound x lowered,
      BindsAt env generate start (if sp.isInstance then 1 else 0) sp.params f i p slot before after bound
        x lowered ∧
      (p.supplied = true → x = Function.param (sp.position i) ∧ params[sp.position i]? = some lowered)

theorem emitCall_delivers {signature : Signature} {receiver : Option ValueId} {args : List Node}
    {span : Span} {s t : GenState} {v : Value} {decl : FunctionDecl} {sp : Specialization}
    {params : List Ty} (hdecl : env.program.function? signature.func = some decl)
    (hsp : Specialization.resolve env.program signature.func decl
      (signature.typeArgs.map (·.substitute s.frame.subst)) args.length span = .ok sp)
    (hparams : sp.loweredParams = .ok params) (hreceiver : receiver.isSome = decl.isInstance)
    (h : emitCall generate signature receiver args span env s = .ok v t) :
    ∃ operands, Delivers env generate sp params receiver args span s operands := by
  have hres := Specialization.resolve_ok hsp
  obtain ⟨operands, s₁, callee, s₂, result, s₃, hoperands, hcallee, hresult⟩ :=
    emitCall_ok hdecl hsp h
  obtain ⟨hlen, hat⟩ := argumentOperands_at (fun _ => hres.supplied_of_variadic) hoperands
  have hfirst : receiver.toList.length = if sp.isInstance then 1 else 0 := by
    rw [hres.isInstance_eq, ← hreceiver]
    cases receiver <;> rfl
  refine ⟨operands, ?_⟩
  exact {
    run := ⟨s₁, callee, s₂, result, s₃, hoperands, hcallee, hresult⟩
    length := by
      rw [List.length_append, hfirst, hlen, Specialization.length_loweredParams hparams]
      rfl
    operand := by
      intro i p hp hs
      obtain ⟨before, s₄, x, s₅, hbefore, hx, hget⟩ := hat i p hp hs
      refine ⟨before, s₄, x, s₅, hbefore, by rwa [Nat.zero_add] at hx, ?_⟩
      rw [Specialization.position, ← hfirst, List.getElem?_append_right (Nat.le_add_right _ _),
        Nat.add_sub_cancel_left]
      exact hget }

theorem specialize_accommodates {decl : FunctionDecl} {body : Node} {span : Span}
    {sp : Specialization} {params : List Ty}
    (hdecl : env.program.function? sp.func = some decl) (hbody : decl.body = some body)
    (hparams : sp.loweredParams = .ok params) {depth : Nat} {s t : GenState} {id : FunctionId}
    (hnone : s.unit.specializations.get? (sp.symbol env.program) = none)
    (h : specialize (Gen.generate depth) sp span env s = .ok id t) :
    ∃ start f slots,
      Accommodates env (Gen.generate depth) sp params body id t.unit start f slots := by
  obtain ⟨start, finish, hstart, hrun, hunit⟩ := specialize_begins hdecl hbody hparams hnone h
  obtain ⟨f₀, hf₀, hlowered⟩ := hstart.generates
  obtain ⟨u, s₁, hbind, hrest⟩ := bind_ok hrun
  obtain ⟨g, slots, hg, hbound, hfn, hlen, -, horder, hbinds⟩ :=
    bindParams_binds (fun _ _ d _ => generate_abides depth d) hf₀ hbind
  have hrest' : Enlarges env Unit (do
      let _ ← Gen.generate depth body
      finishBody) :=
    Enlarges.pervasive.seq (enlarges_generate depth body) fun _ => Enlarges.pervasive.finishBody
  obtain ⟨f, hf, hadded⟩ := ((hrest'.2 s₁).ok hrest).within hg.function
  have hwithin : g.Within f := (hadded hg.shaped).2
  refine ⟨start, f, slots, ?_⟩
  exact {
    function := hstart.function
    scope := hstart.scope
    run := ⟨finish, hrun, hunit⟩
    definition := by
      rw [← hunit, ← hstart.function, ← hfn]
      exact hf
    lowered := (hbound.trans hwithin).params.trans hlowered
    length := hlen
    order := horder
    binds := by
      intro i p slot hi hslot
      obtain ⟨before, after, bound, a, lowered, hb⟩ := hbinds i p slot hi hslot
      refine ⟨before, after, bound, a, lowered, hb.within hwithin, fun hs => ⟨?_, ?_⟩⟩
      · cases hb.operand with
        | passed _ ha _ => exact ha
        | default hn _ _ => cases hs.symm.trans hn
      · exact Specialization.loweredParams_position hparams hi hs hb.layout }

end Gen

/-- Arguments reach the right parameters. A call resolves exactly if the function accepts it, with
the rest parameters and as many others supplied as there are arguments. Then the operands that it
passes are as many as the low-level parameters of the specialization; and where the operand for a
supplied parameter stands in the call, there the slot of the parameter finds it in the body. The slot
of an omitted parameter starts with its default, generated with the earlier parameters in scope. -/
theorem arguments_reach_parameters (env : Env) {func : FuncId} {decl : FunctionDecl} {body : Node}
    (hdecl : env.program.function? func = some decl) (hbody : decl.body = some body)
    (typeArgs : List StaticType) (argCount : Nat) (span : Span) :
    ((∃ sp, Specialization.resolve env.program func decl typeArgs argCount span = .ok sp) ↔
      decl.Accepts typeArgs argCount) ∧
    ∀ sp, Specialization.resolve env.program func decl typeArgs argCount span = .ok sp →
      sp.params = (decl.params.zipIdx.map fun q =>
        q.1.resolved sp.subst (q.1.variadic || decide (q.2 < argCount))) ∧
      ∃ params, sp.loweredParams = .ok params ∧
        (∀ generate signature receiver args s v t, signature.func = func → args.length = argCount →
          signature.typeArgs.map (·.substitute s.frame.subst) = typeArgs →
          receiver.isSome = decl.isInstance →
          Gen.emitCall generate signature receiver args span env s = .ok v t →
          ∃ operands, Gen.Delivers env generate sp params receiver args span s operands) ∧
        (∀ depth span' s id t,
          s.unit.specializations.get? (sp.symbol env.program) = none →
          Gen.specialize (Gen.generate depth) sp span' env s = .ok id t →
          ∃ start f slots, Gen.Accommodates env (Gen.generate depth) sp params body id t.unit start f
            slots) := by
  refine ⟨Specialization.exists_resolve_iff _ _ _ _ _ _, fun sp hsp => ?_⟩
  have hres := Specialization.resolve_ok hsp
  obtain ⟨params, -, hparams, -⟩ := hres.exists_lowered span
  refine ⟨hres.params_eq, params, hparams, ?_, ?_⟩
  · rintro generate signature receiver args s v t rfl rfl rfl hreceiver h
    exact Gen.emitCall_delivers hdecl hsp hparams hreceiver h
  · intro depth span' s id t hnone h
    rw [← hres.func_eq] at hdecl
    exact Gen.specialize_accommodates hdecl hbody hparams hnone h

/-- `function f(a: int, b: int = a, ...rest: int[]): void {}`. -/
def omittingDecl : FunctionDecl :=
  { name := "f"
    params := [{ name := "a", type := .int },
      { name := "b", type := .int, default := some (.mk ⟨0⟩ .dummy .int (.identifier "a")) },
      { name := "rest", type := .array .int, variadic := true }]
    ret := .void
    body := some (.mk ⟨1⟩ .dummy .void (.block [])) }

/-- A program of this function alone. -/
def omittingEnv : Env :=
  { program := { functions := #[omittingDecl] }, config := {}, registry := .standard }

/-- The specialization for `f(7)`. -/
def omittingSpecialization : Specialization :=
  { func := ⟨0⟩
    name := "f"
    owner := none
    params := omittingDecl.params.zipIdx.map fun q =>
      q.1.resolved .empty (q.1.variadic || decide (q.2 < 1))
    ret := .void
    isInstance := false
    typeArgs := []
    subst := .empty }

/-- In `f(7)` the second parameter is omitted, so the slot of the third starts with the second
low-level parameter, and there the call passes an empty array. -/
theorem arguments_reach_parameters_omitting :
    ∃ (operands : List ValueId) (x : ValueId) (s₁ s₂ : GenState) (id : FunctionId) (t : GenState)
      (f : Function) (slots : List ValueId) (slot : ValueId) (p : ResolvedParam),
      Gen.Delivers omittingEnv (Gen.generate 2) omittingSpecialization [.i32, .ptr] none
        [integerNode "7"] .dummy bareState operands ∧
      omittingSpecialization.params[2]? = some p ∧ operands[1]? = some x ∧
      Gen.PassesFor omittingEnv (Gen.generate 2) [integerNode "7"] .dummy 2 p s₁ x s₂ ∧
      Gen.specialize (Gen.generate 2) omittingSpecialization .dummy omittingEnv bareState = .ok id t ∧
      t.unit.module.function? id = some f ∧ slots[2]? = some slot ∧
      f.Initializes slot .ptr (Function.param 1) := by
  obtain ⟨-, params, hparams, hcall, hbody⟩ :=
    (@arguments_reach_parameters omittingEnv ⟨0⟩ omittingDecl _ rfl rfl [] 1 .dummy).2
      omittingSpecialization rfl
  obtain rfl : [Ty.i32, .ptr] = params := Except.ok.inj hparams
  obtain ⟨v, t₁, hemit⟩ : ∃ v t, Gen.emitCall (Gen.generate 2) ⟨⟨0⟩, []⟩ none [integerNode "7"] .dummy
      omittingEnv bareState = .ok v t := Gen.exists_of_succeeds (by decide +kernel)
  obtain ⟨operands, hdelivers⟩ := hcall _ _ none [integerNode "7"] _ v t₁ rfl rfl rfl rfl hemit
  obtain ⟨before, s₁, x, s₂, -, hpass, hx⟩ := hdelivers.operand 2 _ rfl rfl
  obtain ⟨id, t, hspecialize⟩ : ∃ id t, Gen.specialize (Gen.generate 2) omittingSpecialization .dummy
      omittingEnv bareState = .ok id t := Gen.exists_of_succeeds (by decide +kernel)
  obtain ⟨start, f, slots, hf⟩ := hbody 2 .dummy bareState id t rfl hspecialize
  have hlen : 2 < slots.length := by
    rw [hf.length]
    decide
  obtain ⟨_, _, _, y, lowered, hbinds, hsupplied⟩ :=
    hf.binds 2 _ slots[2] rfl (List.getElem?_eq_getElem hlen)
  have hptr : lowered = .ptr := Except.ok.inj hbinds.layout.symm
  obtain ⟨rfl, -⟩ := hsupplied rfl
  exact ⟨operands, x, s₁, s₂, id, t, f, slots, slots[2], _, hdelivers, rfl, hx, hpass, hspecialize,
    hf.definition, List.getElem?_eq_getElem hlen, hptr ▸ hbinds.initializes⟩

end TypedLowering
