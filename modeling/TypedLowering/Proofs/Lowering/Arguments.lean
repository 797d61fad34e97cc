import TypedLowering.Proofs.Flow.Validity
import TypedLowering.Proofs.Lowering.Generators

/-!
Which nodes the code of a call or a `new` hands over to be generated. A `Script` is code generation
cut into steps in which these nodes stand out, whatever they are generated by; `HandsOver` says that
a computation follows a script, and what the script hands over when it succeeds.

Arguments are all handed over, once and in order, by every kind of call but one: the methods of
arrays take what they need and leave the rest.
-/
namespace TypedLowering
set_option autoImplicit false
open Ssa

/-- In every function a rest parameter is the last parameter. -/
def Program.RestLast (p : Program) : Prop :=
  ∀ {f decl}, p.function? f = some decl → ∀ before q after,
    decl.params = before ++ q :: after → q.variadic = true → after = []

namespace Gen

/-! ## Scripts -/

/-- Code generation in steps. A definition that is asked for is a step like any other: what is
generated for it belongs to another function. -/
inductive Script (α : Type) : Type 1 where
  | done (a : α)
  | step {β : Type} (m : Gen β) (next : β → Script α)
  | node (n : Node) (next : Value → Script α)
  | definition (s : Specialization) (span : Span) (next : FunctionId → Script α)

namespace Script

variable {α β : Type} {env : Env}

protected def bind (c : Script α) (f : α → Script β) : Script β :=
  match c with
  | .done a => f a
  | .step m next => .step m fun b => (next b).bind f
  | .node n next => .node n fun v => (next v).bind f
  | .definition s span next => .definition s span fun id => (next id).bind f

/-- The computation that a script describes, nodes being generated by `generate`. -/
def run (generate : Generate) : Script α → Gen α
  | .done a => pure a
  | .step m next => do (next (← m)).run generate
  | .node n next => do (next (← generate n)).run generate
  | .definition s span next => do (next (← specialize generate s span)).run generate

/-- The same computation, with the nodes handed over and the values they came to. -/
def trace (generate : Generate) : Script α → Gen (α × List (Node × Value))
  | .done a => return (a, [])
  | .step m next => do (next (← m)).trace generate
  | .node n next => do
    let v ← generate n
    let (a, handed) ← (next v).trace generate
    return (a, (n, v) :: handed)
  | .definition s span next => do (next (← specialize generate s span)).trace generate

theorem run_bind (generate : Generate) (c : Script α) (f : α → Script β) :
    (c.bind f).run generate = c.run generate >>= fun a => (f a).run generate := by
  induction c with
  | done a => simp only [Script.bind, run, pure_bind]
  | step m next ih => simp only [Script.bind, run, bind_assoc, ih]
  | node n next ih => simp only [Script.bind, run, bind_assoc, ih]
  | definition s span next ih => simp only [Script.bind, run, bind_assoc, ih]

/-- What is handed over does not matter to the result. -/
theorem run_eq_trace (generate : Generate) (c : Script α) :
    c.run generate = Prod.fst <$> c.trace generate := by
  induction c with
  | done a => simp only [run, trace, map_pure]
  | step m next ih => simp only [run, trace, map_bind, ih]
  | node n next ih => simp only [run, trace, map_bind, ih, bind_pure_comp, Functor.map_map]
  | definition s span next ih => simp only [run, trace, map_bind, ih]

theorem trace_bind_ok {generate : Generate} {c : Script α} {f : α → Script β} {s s' : GenState}
    {b : β} {handed : List (Node × Value)}
    (h : (c.bind f).trace generate env s = .ok (b, handed) s') :
    ∃ a first s₁ rest, c.trace generate env s = .ok (a, first) s₁ ∧
      (f a).trace generate env s₁ = .ok (b, rest) s' ∧ handed = first ++ rest := by
  induction c generalizing s handed with
  | done a => exact ⟨a, [], s, handed, rfl, h, rfl⟩
  | step m next ih =>
    obtain ⟨x, s₁, hx, h⟩ := bind_ok h
    obtain ⟨a, first, s₂, rest, hfirst, hrest, rfl⟩ := ih x h
    refine ⟨a, first, s₂, rest, ?_, hrest, rfl⟩
    rw [trace, Gen.run_bind, hx]
    exact hfirst
  | node n next ih =>
    obtain ⟨x, s₁, hx, h⟩ := bind_ok h
    obtain ⟨⟨b', handed'⟩, s₂, hb, h⟩ := bind_ok h
    cases h
    obtain ⟨a, first, s₂, rest, hfirst, hrest, rfl⟩ := ih x hb
    refine ⟨a, (n, x) :: first, s₂, rest, ?_, hrest, rfl⟩
    rw [trace, Gen.run_bind, hx]
    show ((next x).trace generate >>= _) env s₁ = _
    rw [Gen.run_bind, hfirst]
    rfl
  | definition sp span next ih =>
    obtain ⟨x, s₁, hx, h⟩ := bind_ok h
    obtain ⟨a, first, s₂, rest, hfirst, hrest, rfl⟩ := ih x h
    refine ⟨a, first, s₂, rest, ?_, hrest, rfl⟩
    rw [trace, Gen.run_bind, hx]
    exact hfirst

/-- A successful run hands something over. -/
theorem exists_trace {generate : Generate} {c : Script α} {s s' : GenState} {a : α}
    (h : c.run generate env s = .ok a s') :
    ∃ handed, c.trace generate env s = .ok (a, handed) s' := by
  rw [run_eq_trace, ← bind_pure_comp] at h
  obtain ⟨⟨a', handed⟩, s₁, ht, h⟩ := bind_ok h
  cases h
  exact ⟨handed, ht⟩

/-- A node that is handed over comes to the value that the trace has for it. -/
theorem generate_of_mem_trace {generate : Generate} {c : Script α} {s s' : GenState} {a : α}
    {handed : List (Node × Value)} (h : c.trace generate env s = .ok (a, handed) s') {n : Node}
    {v : Value} (hn : (n, v) ∈ handed) : ∃ s₁ s₂, generate n env s₁ = .ok v s₂ := by
  induction c generalizing s handed with
  | done a =>
    cases h
    cases hn
  | step m next ih =>
    obtain ⟨x, s₁, -, h⟩ := bind_ok h
    exact ih x h hn
  | node m next ih =>
    obtain ⟨x, s₁, hx, h⟩ := bind_ok h
    obtain ⟨⟨b, rest⟩, s₂, hrest, h⟩ := bind_ok h
    cases h
    rcases List.mem_cons.mp hn with heq | hn
    · cases heq
      exact ⟨s, s₁, hx⟩
    · exact ih x hrest hn
  | definition sp span next ih =>
    obtain ⟨x, s₁, -, h⟩ := bind_ok h
    exact ih x h hn

end Script

/-! ## Computations that follow a script -/

/-- A computation follows a script, whatever nodes are generated by, and what the script hands over in
a successful run has `Q`. -/
def HandsOver {α : Type} (env : Env) (F : Generate → Gen α)
    (Q : α → List (Node × Value) → Prop) : Prop :=
  ∃ c : Script α, (∀ generate, F generate = c.run generate) ∧
    ∀ generate s a handed s', c.trace generate env s = .ok (a, handed) s' → Q a handed

namespace HandsOver

variable {α β : Type} {env : Env} {F : Generate → Gen α} {m : Gen α} {K : Generate → α → Gen β}
  {Q Q' : α → List (Node × Value) → Prop} {R : β → List (Node × Value) → Prop}

theorem mono (h : HandsOver env F Q) (hq : ∀ a handed, Q a handed → Q' a handed) :
    HandsOver env F Q' := by
  obtain ⟨c, hc, ht⟩ := h
  exact ⟨c, hc, fun generate s a handed s' h => hq a handed (ht generate s a handed s' h)⟩

/-- A computation that generates no node. -/
theorem quiet (h : ∀ s a s', m env s = .ok a s' → Q a []) : HandsOver env (fun _ => m) Q := by
  refine ⟨.step m .done, fun _ => (bind_pure m).symm, fun generate s a handed s' ht => ?_⟩
  obtain ⟨x, s₁, hx, ht⟩ := bind_ok ht
  cases ht
  exact h s a s' hx

theorem node (n : Node) {Q : Value → List (Node × Value) → Prop} (h : ∀ v, Q v [(n, v)]) :
    HandsOver env (fun generate => generate n) Q := by
  refine ⟨.node n .done, fun generate => (bind_pure _).symm, fun generate s a handed s' ht => ?_⟩
  obtain ⟨_, s₁, -, ht⟩ := bind_ok ht
  cases ht
  exact h a

theorem definition (sp : Specialization) (span : Span)
    {Q : FunctionId → List (Node × Value) → Prop} (h : ∀ id, Q id []) :
    HandsOver env (fun generate => specialize generate sp span) Q := by
  refine ⟨.definition sp span .done, fun generate => (bind_pure _).symm,
    fun generate s a handed s' ht => ?_⟩
  obtain ⟨_, s₁, -, ht⟩ := bind_ok ht
  cases ht
  exact h a

protected theorem bind (hF : HandsOver env F Q)
    (hK : ∀ a, HandsOver env (fun generate => K generate a)
      fun b rest => ∀ first, Q a first → R b (first ++ rest)) :
    HandsOver env (fun generate => F generate >>= K generate) R := by
  obtain ⟨c, hc, hQ⟩ := hF
  choose k hk hR using hK
  refine ⟨c.bind k, fun generate => ?_, fun generate s b handed s' ht => ?_⟩
  · rw [Script.run_bind, ← hc]
    exact congrArg (F generate >>= ·) (funext fun a => hk a generate)
  · obtain ⟨a, first, s₁, rest, hfirst, hrest, rfl⟩ := Script.trace_bind_ok ht
    exact hR a generate s₁ b rest s' hrest first (hQ generate s a first s₁ hfirst)

/-- After a step that generates no node. -/
theorem first (hK : ∀ a, HandsOver env (fun generate => K generate a)
    fun b handed => (∃ s s', m env s = .ok a s') → R b handed) :
    HandsOver env (fun generate => m >>= K generate) R :=
  .bind (Q := fun a handed => handed = [] ∧ ∃ s s', m env s = .ok a s')
    (quiet fun s a s' h => ⟨rfl, s, s', h⟩)
    fun a => (hK a).mono fun _ _ hb _ ⟨hnil, hrun⟩ => by
      subst hnil
      exact hb hrun

end HandsOver

/-- A computation hands over these nodes, in this order, whenever it succeeds. -/
def Passes {α : Type} (env : Env) (F : Generate → Gen α) (nodes : List Node) : Prop :=
  HandsOver env F fun _ handed => handed.map Prod.fst = nodes

namespace Passes

variable {α β : Type} {env : Env} {F : Generate → Gen α} {m : Gen α} {K : Generate → α → Gen β}
  {nodes nodes' : List Node} {n : Node} {args : List Node} {span : Span}

theorem quiet (m : Gen α) : Passes env (fun _ => m) [] := HandsOver.quiet fun _ _ _ _ => rfl

/-- What fails hands over anything. -/
theorem never (h : ∀ s a s', m env s ≠ .ok a s') : Passes env (fun _ => m) nodes :=
  HandsOver.quiet fun s a s' hm => (h s a s' hm).elim

theorem fail {cause : Cause} : Passes env (fun _ => (fail cause span : Gen α)) nodes :=
  never fun _ _ _ h => fail_ok h

theorem fail_bind {cause : Cause} {k : α → Gen β} :
    Passes env (fun _ => (Gen.fail cause span : Gen α) >>= k) nodes := by
  refine never fun s b s' h => ?_
  obtain ⟨_, _, hfail, -⟩ := bind_ok h
  exact fail_ok hfail

protected theorem bind (hF : Passes env F nodes)
    (hK : ∀ a, Passes env (fun generate => K generate a) nodes') :
    Passes env (fun generate => F generate >>= K generate) (nodes ++ nodes') :=
  HandsOver.bind hF fun a => (hK a).mono fun _ rest hrest first hfirst => by
    rw [List.map_append, hfirst, hrest]

theorem first (hK : ∀ a, Passes env (fun generate => K generate a) nodes) :
    Passes env (fun generate => m >>= K generate) nodes :=
  Passes.bind (quiet m) hK

theorem last (hF : Passes env F nodes) (k : α → Gen β) :
    Passes env (fun generate => F generate >>= k) nodes := by
  have h := Passes.bind hF fun a => quiet (k a)
  rwa [List.append_nil] at h

theorem operand (n : Node) (t : StaticType) :
    Passes env (fun generate => generateOperand generate n t) [n] :=
  last (HandsOver.node n fun _ => rfl) fun v => castOperand v t n.span

theorem operands (t : StaticType) (nodes : List Node) :
    Passes env (fun generate => nodes.mapM fun n => generateOperand generate n t) nodes := by
  induction nodes with
  | nil => exact quiet _
  | cons n nodes ih =>
    simp only [List.mapM_cons]
    exact Passes.bind (operand n t) fun x => last ih _

end Passes

/-! ## Calls through a signature -/

/-- The arguments that are generated for the parameters from number `index` on. -/
def takenBy (args : List Node) : Nat → List ResolvedParam → List Node
  | _, [] => []
  | index, p :: rest =>
    (if p.variadic then args.drop index else if p.supplied then args[index]?.toList else [])
      ++ takenBy args (index + 1) rest

variable {env : Env} {args : List Node} {span : Span}

namespace Passes

theorem argumentOperands : ∀ (index : Nat) (params : List ResolvedParam),
    Passes env (fun generate => argumentOperands generate args span index params)
      (takenBy args index params)
  | _, [] => quiet _
  | index, p :: rest => by
    have further (here : List ValueId) : Passes env (fun generate => do
        return here ++ (← Gen.argumentOperands generate args span (index + 1) rest))
        (takenBy args (index + 1) rest) :=
      last (argumentOperands (index + 1) rest) _
    have packed (l : ArrayLayout) : Passes env (fun generate => do
        let elements ← (args.drop index).mapM fun a => Gen.generateOperand generate a l.element
        let here ← Pure.pure [← Gen.arrayOfOperands l elements span]
        return here ++ (← Gen.argumentOperands generate args span (index + 1) rest))
        (args.drop index ++ takenBy args (index + 1) rest) :=
      Passes.bind (operands _ _) fun elements => first fun array => first further
    cases hv : p.variadic with
    | true =>
      simp only [Gen.argumentOperands, takenBy, hv, if_true]
      cases p.type <;> exact first packed
    | false =>
      simp only [Gen.argumentOperands, takenBy, hv]
      cases hs : p.supplied with
      | true =>
        cases ha : args[index]? with
        | some a => exact Passes.bind (operand a _) fun x => first further
        | none => exact first further
      | false => exact first further

/-- The parameters of a call take all its arguments, each once and in order. -/
theorem takenBy_resolved (args : List Node) (subst : Substitution) : ∀ (params : List Param) (index : Nat),
    (∀ before q after, params = before ++ q :: after → q.variadic = true → after = []) →
    args.length ≤ index + params.length ∨ params.any (·.variadic) = true →
    takenBy args index ((params.zipIdx index).map fun q =>
      q.1.resolved subst (q.1.variadic || decide (q.2 < args.length))) = args.drop index
  | [], index, _, hlen => by
    have hlen : args.length ≤ index := by simpa using hlen
    exact (List.drop_eq_nil_of_le hlen).symm
  | q :: params, index, hrest, hlen => by
    rw [List.zipIdx_cons, List.map_cons, takenBy]
    cases hv : q.variadic with
    | true =>
      have hnil : params = [] := hrest [] q params rfl hv
      subst hnil
      simp [Param.resolved, hv, takenBy]
    | false =>
      have hlen : args.length ≤ index + 1 + params.length ∨ params.any (·.variadic) = true := by
        simp only [List.length_cons, List.any_cons, hv, Bool.false_or] at hlen
        exact hlen.imp_left (by omega)
      rw [takenBy_resolved args subst params (index + 1)
        (fun before r after hr => hrest (q :: before) r after (by rw [hr]; rfl)) hlen]
      by_cases hi : index < args.length
      · simp [Param.resolved, hv, hi]
      · have hle : args.length ≤ index := by omega
        simp [Param.resolved, hv, hi, List.drop_eq_nil_of_le hle,
          List.drop_eq_nil_of_le (Nat.le_succ_of_le hle)]

theorem emitCall (hp : env.program.RestLast) (signature : Signature) (receiver : Option ValueId) :
    Passes env (fun generate => emitCall generate signature receiver args span) args := by
  refine HandsOver.first fun typeArgs => HandsOver.first fun decl => HandsOver.first fun p => ?_
  refine HandsOver.first fun sp => ?_
  have h : Passes env (fun generate => do
      let operands ← Gen.argumentOperands generate args span 0 sp.params
      let callee ← Gen.specialize generate sp span
      let result ← Gen.callFunction callee (receiver.toList ++ operands) .none
      Gen.valueOf result sp.ret span) (takenBy args 0 sp.params) := by
    rw [← List.append_nil (takenBy args 0 sp.params)]
    refine Passes.bind (argumentOperands 0 sp.params) fun operands => ?_
    exact last (HandsOver.definition sp span fun _ => rfl) _
  refine h.mono ?_
  rintro _ handed hh ⟨_, _, hresolve⟩ ⟨_, _, hprogram⟩ ⟨_, _, hdecl⟩ -
  cases hprogram
  have hdecl := (functionDecl_ok hdecl).1
  have hres := (ofExcept_ok hresolve).1
  have hall := takenBy_resolved args sp.subst decl.params 0 (hp hdecl)
    (by simpa using Specialization.resolve_arity hres)
  rw [hh, (Specialization.resolve_ok hres).params_eq, hall, List.drop_zero]

/-! ## Members of objects -/

theorem mathOperands (member : String) (arity : Nat) :
    Passes env (fun generate => mathOperands generate member args arity span) args := by
  unfold Gen.mathOperands
  split
  · exact fail
  · split
    · exact fail
    · exact operands _ _

theorem mathCall (member : String) :
    Passes env (fun generate => mathCall generate member args span) args := by
  refine last ?_ _
  unfold Gen.mathCallOperand
  cases MathMember.named? member with
  | none => exact fail
  | some m =>
    cases m with
    | constant x => exact fail
    | intrinsic symbol arity => exact last (mathOperands _ _) _
    | library symbol arity => exact last (mathOperands _ _) _
    | fold symbol empty => exact last (operands _ _) _
    | round => exact last (mathOperands _ _) _
    | random => exact last (mathOperands _ _) _

theorem classCall (hp : env.program.RestLast) (d : ClassDescriptor) (this : ObjectRef)
    (member : String) (signature : Option Signature) :
    Passes env (fun generate => classCall generate d this member args signature span) args := by
  cases signature with
  | none => exact fail
  | some signature =>
    refine first fun decl => ?_
    split
    · exact first fun address => emitCall hp _ _
    · exact emitCall hp _ _

theorem classNew (hp : env.program.RestLast) (d : ClassDescriptor) (signature : Option Signature) :
    Passes env (fun generate => classNew generate d args signature span) args := by
  refine first fun size => first fun align => first fun address => ?_
  cases d.constructor with
  | none =>
    cases signature with
    | none =>
      cases args with
      | nil => exact quiet _
      | cons a args => exact fail_bind
    | some signature => exact fail_bind
  | some _ =>
    cases signature with
    | none => exact fail_bind
    | some signature => exact last (emitCall hp _ _) _

theorem arrayNew (l : ArrayLayout) :
    Passes env (fun generate => arrayNew generate l args span) args := by
  unfold Gen.arrayNew
  match args with
  | [] => exact first fun length => quiet _
  | [n] => exact last (operand n _) _
  | _ :: _ :: _ => exact fail_bind

theorem construct (hp : env.program.RestLast) (t : StaticType) (signature : Option Signature) :
    Passes env (fun generate => constructObject generate t args signature span) args := by
  cases t with
  | object cls name => exact first fun d => classNew hp d signature
  | array t => exact first fun l => arrayNew l
  | _ => exact fail

end Passes

/-- The arguments that a method of arrays takes. -/
def arrayArguments (member : String) (args : List Node) : List Node :=
  if member = "push" then args.take 1 else []

theorem Passes.arrayCall (l : ArrayLayout) (this : ObjectRef) (member : String) :
    Passes env (fun generate => arrayCall generate l this member args span)
      (arrayArguments member args) := by
  unfold Gen.arrayCall arrayArguments
  split
  · refine first fun address => ?_
    cases args with
    | nil => exact fail
    | cons item rest => exact last (operand item _) _
  · split
    · exact quiet _
    · exact fail

end Gen

/-! ## The arguments of calls -/

def StaticType.isArray : StaticType → Bool
  | .array _ => true
  | _ => false

def ObjectRef.isArray (o : ObjectRef) : Bool :=
  match o.kind with
  | .array _ => true
  | _ => false

/-- Whether the object that a value is seen as is an array. -/
def Value.isArray : Value → Bool
  | .object o => o.isArray
  | v => v.type.isArray

/-- The object in front of the member that a node calls, and the name of the member. -/
def Node.calledMember? (n : Node) : Option (Node × String) :=
  match n.form with
  | .call callee _ _ =>
    match callee.form with
    | .member object property => some (object, property)
    | _ => none
  | _ => none

/-- Nodes handed over for a call or a `new` with arguments `args`: first the object in front of a
called member, then the arguments, or those that a method of an array takes. -/
structure Node.HandedFor (n : Node) (args : List Node) (handed : List (Node × Value)) : Prop where
  plain : n.calledMember? = none → handed.map Prod.fst = args
  member : ∀ {object property}, n.calledMember? = some (object, property) →
    ∃ value rest, handed = (object, value) :: rest ∧ rest.map Prod.fst =
      if value.isArray then Gen.arrayArguments property args else args

namespace Gen

variable {env : Env} {args : List Node} {span : Span} {s s' : GenState}

theorem objectAt_isArray {address : ValueId} {t : StaticType} {o : ObjectRef}
    (h : objectAt address t span env s = .ok o s') : o.isArray = t.isArray := by
  cases t with
  | object cls name =>
    obtain ⟨d, s₁, -, h⟩ := bind_ok h
    cases h
    rfl
  | array t =>
    obtain ⟨l, s₁, -, h⟩ := bind_ok h
    cases h
    rfl
  | builtin b =>
    cases h
    rfl
  | _ => exact (internal_ok h).elim

theorem intoObject_isArray {v : Value} {o : ObjectRef}
    (h : intoObject v span env s = .ok o s') : o.isArray = v.isArray := by
  have viewed {v : Value} (h : (if v.type.isObject then do
      objectAt (← operand v span) v.type span
      else unsupported "member access" v.type.text span) env s = .ok o s') :
      o.isArray = v.type.isArray := by
    split at h
    · obtain ⟨x, s₁, -, h⟩ := bind_ok h
      exact objectAt_isArray h
    · exact (unsupported_ok h).elim
  cases v with
  | object o' =>
    cases h
    rfl
  | unit => exact (unsupported_ok h).elim
  | rvalue x t => exact viewed h
  | assignable a => exact viewed h

theorem Passes.callMethod (hp : env.program.RestLast) (o : ObjectRef) (member : String)
    (signature : Option Signature) :
    Passes env (fun generate => callMethod generate o member args signature span)
      (if o.isArray then arrayArguments member args else args) := by
  obtain ⟨kind, address, type⟩ := o
  cases kind with
  | cls d => exact classCall hp d _ member signature
  | array l => exact arrayCall l _ member
  | builtin b =>
    cases b
    exact mathCall member

/-- A member that is called gets its object first, then the arguments. -/
theorem HandsOver.callMember (hp : env.program.RestLast) (object : Node) (property : String)
    (signature : Option Signature) (span at' : Span) :
    HandsOver env (fun generate => do
      let receiver ← intoObject (← generate object) at'
      Gen.callMethod generate receiver property args signature span)
    fun _ handed => ∃ value rest, handed = (object, value) :: rest ∧ rest.map Prod.fst =
      if value.isArray then arrayArguments property args else args := by
  refine .bind (Q := fun v first => first = [(object, v)]) (.node object fun _ => rfl) fun v => ?_
  refine .first fun o => (Passes.callMethod hp o property signature).mono ?_
  rintro _ rest hrest ⟨_, _, ho⟩ _ rfl
  rw [intoObject_isArray ho] at hrest
  exact ⟨v, rest, rfl, hrest⟩

/-- What the code of a call or a `new` hands over. -/
theorem HandsOver.standard (hp : env.program.RestLast) {n callee : Node}
    {signature : Option Signature}
    (hn : n.form = .call callee args signature ∨ n.form = .construct callee args signature) :
    HandsOver env (fun generate => Gen.standard generate n.kind n) fun _ => n.HandedFor args := by
  have plain {F : Generate → Gen Value} (hm : n.calledMember? = none) (hF : Passes env F args) :
      HandsOver env F fun _ => n.HandedFor args := by
    refine hF.mono fun _ _ hargs => ⟨fun _ => hargs, fun hsome => ?_⟩
    rw [hm] at hsome
    cases hsome
  rcases hn with hn | hn
  · have hk : n.kind = .call := by rw [Node.kind, hn]; rfl
    simp only [hk, Gen.standard, Gen.call, hn]
    cases hc : callee.form with
    | member object property =>
      have hm : n.calledMember? = some (object, property) := by
        simp only [Node.calledMember?, hn, hc]
      refine (callMember hp object property signature n.span callee.span).mono ?_
      intro _ handed hhanded
      constructor
      · intro hnone
        cases hm.symm.trans hnone
      · intro object' property' hsome
        cases hm.symm.trans hsome
        exact hhanded
    | _ =>
      have hm : n.calledMember? = none := by simp only [Node.calledMember?, hn, hc]
      cases signature with
      | none => exact plain hm .fail
      | some signature => exact plain hm (.emitCall hp signature none)
  · have hk : n.kind = .construct := by rw [Node.kind, hn]; rfl
    have hm : n.calledMember? = none := by simp only [Node.calledMember?, hn]
    simp only [hk, Gen.standard, Gen.construct, hn]
    exact plain hm (.first fun t => .construct hp t signature)

end Gen

/-- What is generated for a call or a `new`, in a program whose rest parameters come last. The
computation follows a script that does not depend on how nodes are generated. Whenever it succeeds
the script has handed over, in this order, the object in front of a called member and the arguments,
each once; but a method of an array takes the first argument at most (`push`) or none (`pop`), and
the others are not generated. -/
theorem generate_hands_over {env : Env} (hr : env.registry.IsDiagonal) (hp : env.program.RestLast)
    {n callee : Node} {args : List Node} {signature : Option Signature}
    (hn : n.form = .call callee args signature ∨ n.form = .construct callee args signature) :
    ∃ script : Gen.Script Value, (∀ generate, Gen.standard generate n.kind n = script.run generate) ∧
      ∀ depth s v s', Gen.generate (depth + 1) n env s = .ok v s' → ∃ handed,
        script.trace (Gen.generate depth) env s = .ok (v, handed) s' ∧ n.HandedFor args handed ∧
        ∀ part value, (part, value) ∈ handed →
          ∃ s₁ s₂, Gen.generate depth part env s₁ = .ok value s₂ := by
  obtain ⟨script, hscript, hhands⟩ := Gen.HandsOver.standard hp hn
  refine ⟨script, hscript, fun depth s v s' hrun => ?_⟩
  have hrun : script.run (Gen.generate depth) env s = .ok v s' := by
    rw [← hscript]
    obtain ⟨_, _, hread, hrun⟩ := Gen.bind_ok hrun
    cases hread
    cases hkind : env.registry.get? n.kind with
    | none =>
      rw [hkind] at hrun
      exact (Gen.fail_ok hrun).elim
    | some kind =>
      rw [hkind] at hrun
      cases hr n.kind kind hkind
      exact hrun
  obtain ⟨handed, htrace⟩ := Gen.Script.exists_trace hrun
  exact ⟨handed, htrace, hhands _ _ _ _ _ htrace,
    fun _ _ hmem => Gen.Script.generate_of_mem_trace htrace hmem⟩

/-- `new Array<int>()`. -/
def emptyArray : Node :=
  .mk ⟨0⟩ .dummy (.array .int) (.construct (.mk ⟨0⟩ .dummy .void (.identifier "Array")) [] none)

/-- An integer literal. -/
def integerNode (text : String) : Node := .mk ⟨0⟩ .dummy .int (.numericLiteral text)

/-- `new Array<int>().push(1, 2)`. -/
def pushTwo : Node :=
  .mk ⟨0⟩ .dummy .int (.call (.mk ⟨0⟩ .dummy .int (.member emptyArray "push"))
    [integerNode "1", integerNode "2"] none)

/-- An empty program, compiled with the standard generators. -/
def bareEnv : Env := { program := {}, config := {}, registry := .standard }

/-- The start of the only function of a module. -/
def bareState : GenState :=
  let f := (Function.shell "f" [] .void .internal).addBlock "entry"
  { unit := { module := Module.addFunction { name := "" } f }
    frame := { Frame.outside with function := ⟨0⟩, block := Function.entry } }

theorem isArray_emptyArray {depth : Nat} {v : Value} {s s' : GenState}
    (h : Gen.generate depth emptyArray bareEnv s = .ok v s') : v.isArray = true := by
  cases depth with
  | zero => exact (Gen.throw_ok h).elim
  | succ depth =>
    obtain ⟨_, _, hread, h⟩ := Gen.bind_ok h
    cases hread
    obtain ⟨t, _, htype, h⟩ := Gen.bind_ok h
    cases htype
    obtain ⟨l, _, hlayout, h⟩ := Gen.bind_ok h
    cases hlayout
    obtain ⟨_, _, -, h⟩ := Gen.bind_ok h
    obtain ⟨_, _, -, h⟩ := Gen.bind_ok h
    cases h
    rfl

/-- The second argument is not generated. -/
theorem generate_hands_over_pushTwo : ∃ (v : Value) (s : GenState) (script : Gen.Script Value)
    (handed : List (Node × Value)), Gen.generate 3 pushTwo bareEnv bareState = .ok v s ∧
      (∀ generate, Gen.standard generate pushTwo.kind pushTwo = script.run generate) ∧
      script.trace (Gen.generate 2) bareEnv bareState = .ok (v, handed) s ∧
      handed.map Prod.fst = [emptyArray, integerNode "1"] := by
  obtain ⟨v, s, hrun⟩ : ∃ v s, Gen.generate 3 pushTwo bareEnv bareState = .ok v s :=
    Gen.exists_of_succeeds (by decide +kernel)
  have hp : bareEnv.program.RestLast := by
    intro f decl hf
    cases hf
  obtain ⟨script, hscript, hhands⟩ :=
    generate_hands_over (n := pushTwo) Registry.isDiagonal_standard hp (.inl rfl)
  obtain ⟨handed, htrace, hfor, hvalues⟩ := hhands 2 bareState v s hrun
  have hm : pushTwo.calledMember? = some (emptyArray, "push") := rfl
  obtain ⟨value, rest, rfl, hrest⟩ := hfor.member hm
  obtain ⟨_, _, hreceiver⟩ := hvalues emptyArray value List.mem_cons_self
  rw [isArray_emptyArray hreceiver] at hrest
  exact ⟨v, s, script, _, hrun, hscript, htrace, by rw [List.map_cons, hrest]; rfl⟩

end TypedLowering
