import TypedLowering.Proofs.Lowering.Arguments
import TypedLowering.Proofs.Lowering.History

/-!
Which nodes have to be in the registry. A node is generated only if every operand of it is, so each of
them passes the registry, except for operands that are left out: the elements of an array literal that
becomes constant data, and the arguments that a method of arrays does not take.
-/
namespace TypedLowering
set_option autoImplicit false
open Ssa

/-! ## Operands -/

/-- The parts of a node that are evaluated when it is, in source order. What is called is no operand,
but the object in front of a member that is called is one. -/
def Node.operands (n : Node) : List Node :=
  match n.form with
  | .call callee args _ =>
    match callee.form with
    | .member object _ => object :: args
    | _ => args
  | .construct _ args _ => args
  | form => form.children

/-- A part of a tree at a place where it is evaluated. -/
inductive Node.Demands : Node → Node → Prop
  | here (n : Node) : Demands n n
  | operand {n c part : Node} (hc : c ∈ n.operands) (h : Demands c part) : Demands n part

namespace Gen

/-! ## Steps that a run has taken -/

/-- A node has been generated in some state. -/
def Arrives (env : Env) (generate : Generate) (n : Node) : Prop :=
  ∃ s v s', generate n env s = .ok v s'

/-- A computation succeeds only if `R`. -/
def OnlyIf {α : Type} (env : Env) (R : Prop) (m : Gen α) : Prop :=
  ∀ s a s', m env s = .ok a s' → R

namespace OnlyIf

variable {α β : Type} {env : Env} {R : Prop} {m : Gen α} {f : α → Gen β} {generate : Generate}
  {n c : Node} {args : List Node} {span : Span}

theorem never (h : ∀ s a s', m env s ≠ .ok a s') : OnlyIf env R m :=
  fun s a s' hm => (h s a s' hm).elim

theorem fail {cause : Cause} : OnlyIf env R (fail cause span : Gen α) :=
  never fun _ _ _ h => fail_ok h

theorem first (h : OnlyIf env R m) : OnlyIf env R (m >>= f) := by
  intro s b s' hb
  obtain ⟨a, s₁, ha, -⟩ := bind_ok hb
  exact h s a s₁ ha

/-- After a step, of which the result may be used. -/
theorem after (h : ∀ a, (∃ s s', m env s = .ok a s') → OnlyIf env R (f a)) :
    OnlyIf env R (m >>= f) := by
  intro s b s' hb
  obtain ⟨a, s₁, ha, hb⟩ := bind_ok hb
  exact h a ⟨s, s₁, ha⟩ s₁ b s' hb

theorem rest (h : ∀ a, OnlyIf env R (f a)) : OnlyIf env R (m >>= f) := after fun a _ => h a

theorem mapM {f : α → Gen β} {a : α} (h : OnlyIf env R (f a)) :
    ∀ {l : List α}, a ∈ l → OnlyIf env R (l.mapM f)
  | b :: l, ha => by
    rw [List.mapM_cons]
    rcases List.mem_cons.mp ha with rfl | ha
    · exact first h
    · exact rest fun _ => first (mapM h ha)

theorem node (n : Node) : OnlyIf env (Arrives env generate n) (generate n) :=
  fun s v s' h => ⟨s, v, s', h⟩

theorem generateOperand (n : Node) (t : StaticType) :
    OnlyIf env (Arrives env generate n) (generateOperand generate n t) := first (node n)

theorem operands (hc : c ∈ args) (t : StaticType) :
    OnlyIf env (Arrives env generate c) (args.mapM fun n => Gen.generateOperand generate n t) :=
  mapM (f := fun n => Gen.generateOperand generate n t) (generateOperand c t) hc

/-- Nodes that a computation hands over. -/
theorem of_passes {F : Generate → Gen α} {nodes : List Node} (h : Passes env F nodes) (hc : c ∈ nodes) :
    OnlyIf env (Arrives env generate c) (F generate) := by
  obtain ⟨script, hscript, hhands⟩ := h
  intro s a s' hrun
  rw [hscript] at hrun
  obtain ⟨handed, htrace⟩ := Script.exists_trace hrun
  rw [← hhands generate s a handed s' htrace] at hc
  obtain ⟨⟨n, v⟩, hmem, rfl⟩ := List.mem_map.mp hc
  obtain ⟨s₁, s₂, hn⟩ := Script.generate_of_mem_trace htrace hmem
  exact ⟨s₁, v, s₂, hn⟩

theorem condition (n : Node) : OnlyIf env (Arrives env generate n) (condition generate n) :=
  first (node n)

theorem logicalOperand (op : BinaryOp) (n : Node) :
    OnlyIf env (Arrives env generate n) (logicalOperand generate op n span) := first (node n)

theorem conditionalArm (n : Node) (t : StaticType) :
    OnlyIf env (Arrives env generate n) (conditionalArm generate n t span) := first (node n)

theorem statements : ∀ {body : List Node}, c ∈ body →
    OnlyIf env (Arrives env generate c) (statements generate body)
  | n :: body, hc => by
    refine rest fun _ => ?_
    rcases List.mem_cons.mp hc with rfl | hc
    · exact first (node c)
    · exact rest fun _ => statements hc

theorem loopBody (target : LoopTarget) (next : BlockId) :
    OnlyIf env (Arrives env generate n) (loopBody generate n target next) :=
  rest fun _ => first (node n)

theorem generateOptional : ∀ {part : Option Node}, part = some n →
    OnlyIf env (Arrives env generate n) (generateOptional generate part)
  | some _, rfl => first (node n)

/-! ### Arguments -/

theorem mem_takenBy (subst : Substitution) {params : List Param} {index : Nat}
    (hlen : args.length ≤ index + params.length ∨ params.any (·.variadic) = true)
    (hc : c ∈ args.drop index) :
    c ∈ takenBy args index ((params.zipIdx index).map fun q =>
      q.1.resolved subst (q.1.variadic || decide (q.2 < args.length))) := by
  induction params generalizing index with
  | nil =>
    have hlen : args.length ≤ index := by simpa using hlen
    rw [List.drop_eq_nil_of_le hlen] at hc
    cases hc
  | cons q params ih =>
    rw [List.zipIdx_cons, List.map_cons, takenBy]
    cases hv : q.variadic with
    | true =>
      -- a rest parameter takes all that is left
      exact List.mem_append_left _ (by simpa [Param.resolved, hv] using hc)
    | false =>
      have hlen : args.length ≤ index + 1 + params.length ∨ params.any (·.variadic) = true := by
        simp only [List.length_cons, List.any_cons, hv, Bool.false_or] at hlen
        exact hlen.imp_left (by omega)
      have hi : index < args.length := by
        have := List.length_pos_of_mem hc
        rw [List.length_drop] at this
        omega
      rw [List.drop_eq_getElem_cons hi] at hc
      rcases List.mem_cons.mp hc with rfl | hc
      · exact List.mem_append_left _ (by simp [Param.resolved, hv, hi])
      · exact List.mem_append_right _ (ih hlen hc)

theorem emitCall (signature : Signature) (receiver : Option ValueId) (hc : c ∈ args) :
    OnlyIf env (Arrives env generate c) (emitCall generate signature receiver args span) := by
  refine rest fun typeArgs => after fun decl hdecl => after fun p hp => after fun sp hsp => ?_
  obtain ⟨_, _, hdecl⟩ := hdecl
  obtain ⟨_, _, hp⟩ := hp
  obtain ⟨_, _, hsp⟩ := hsp
  cases hp
  have hres := (ofExcept_ok hsp).1
  have htaken : c ∈ takenBy args 0 sp.params := by
    rw [(Specialization.resolve_ok hres).params_eq]
    exact mem_takenBy _ (by simpa using Specialization.resolve_arity hres) hc
  exact first (of_passes (.argumentOperands 0 sp.params) htaken)

theorem classCall (d : ClassDescriptor) (this : ObjectRef) (member : String)
    (signature : Option Signature) (hc : c ∈ args) :
    OnlyIf env (Arrives env generate c) (classCall generate d this member args signature span) := by
  cases signature with
  | none => exact fail
  | some signature =>
    refine rest fun decl => ?_
    split
    · exact rest fun address => emitCall _ _ hc
    · exact emitCall _ _ hc

theorem classNew (d : ClassDescriptor) (signature : Option Signature) (hc : c ∈ args) :
    OnlyIf env (Arrives env generate c) (classNew generate d args signature span) := by
  refine rest fun size => rest fun align => rest fun address => ?_
  cases d.constructor with
  | none =>
    cases signature with
    | none =>
      cases args with
      | nil => cases hc
      | cons a args => exact first fail
    | some signature => exact first fail
  | some _ =>
    cases signature with
    | none => exact first fail
    | some signature => exact first (emitCall _ _ hc)

theorem constructObject (t : StaticType) (signature : Option Signature) (hc : c ∈ args) :
    OnlyIf env (Arrives env generate c) (constructObject generate t args signature span) := by
  cases t with
  | object cls name => exact rest fun d => classNew d signature hc
  | array t => exact rest fun l => of_passes (.arrayNew l) hc
  | _ => exact fail

end OnlyIf

end Gen

/-! ## Operands that are left out -/

/-- An operand that the code of a node does without: an element of an array literal that is made of
numbers and booleans alone and is longer than the threshold for constant data, or an argument that a
method of arrays does not take. -/
inductive Node.Omits (env : Env) (generate : Generate) (n c : Node) : Prop
  | constant {elements : List Node} (hn : n.form = .arrayLiteral elements) (hc : c ∈ elements)
    (hliteral : ∀ e ∈ elements, e.kind = .numericLiteral ∨ e.kind = .booleanLiteral)
    (hlong : env.config.literalBufferThreshold < elements.length)
  | surplus {callee object : Node} {property : String} {args : List Node}
    {signature : Option Signature} (hn : n.form = .call callee args signature)
    (hcallee : callee.form = .member object property)
    (harray : ∃ s v s', generate object env s = .ok v s' ∧ v.isArray = true)
    (hc : c ∈ args.drop (Gen.arrayArguments property args).length)

namespace Gen

variable {env : Env} {generate : Generate} {n c : Node} {s s' : GenState} {v : Value}

theorem constantElement_literal {subst : Substitution} {l : ArrayLayout} {x : Constant}
    (h : constantElement subst l n = .ok (some x)) :
    n.kind = .numericLiteral ∨ n.kind = .booleanLiteral := by
  unfold constantElement at h
  split at h
  · next hn => exact .inl (by rw [Node.kind, hn]; rfl)
  · next hn => exact .inr (by rw [Node.kind, hn]; rfl)
  · cases h

theorem constantElements_literal {subst : Substitution} {l : ArrayLayout} {elements : List Node}
    {data : List Constant} (h : constantElements subst l elements = .ok (some data)) :
    data.length = elements.length ∧
      ∀ e ∈ elements, e.kind = .numericLiteral ∨ e.kind = .booleanLiteral := by
  induction elements generalizing data with
  | nil =>
    cases h
    exact ⟨rfl, fun _ he => by cases he⟩
  | cons e rest ih =>
    obtain ⟨x, hx, h⟩ := except_bind_ok h
    cases x with
    | none => cases h
    | some x =>
      obtain ⟨xs, hxs, h⟩ := except_bind_ok h
      cases xs with
      | none => cases h
      | some xs =>
        cases h
        obtain ⟨hlen, hrest⟩ := ih hxs
        exact ⟨congrArg Nat.succ hlen, List.forall_mem_cons.mpr ⟨constantElement_literal hx, hrest⟩⟩

theorem constantData_literal {l : ArrayLayout} {elements : List Node} {data : List Constant}
    (h : constantData l elements env s = .ok (some data) s') : data.length = elements.length ∧
      ∀ e ∈ elements, e.kind = .numericLiteral ∨ e.kind = .booleanLiteral := by
  unfold constantData at h
  cases hl : l.storage with
  | boxed =>
    rw [hl] at h
    cases h
  | unboxed t =>
    rw [hl] at h
    obtain ⟨f, s₁, -, h⟩ := bind_ok h
    exact constantElements_literal (ofExcept_ok h).1

namespace OnlyIf

/-- What holds when a node with certain parts has been generated: an operand has been too, or the node
omits it. -/
abbrev Covers (env : Env) (generate : Generate) (n c : Node) (m : Gen Value) : Prop :=
  OnlyIf env (Arrives env generate c ∨ n.Omits env generate c) m

theorem covers {m : Gen Value} (h : OnlyIf env (Arrives env generate c) m) :
    Covers env generate n c m := fun s v s' hm => .inl (h s v s' hm)

theorem arrayLiteral (hc : c ∈ n.operands) : Covers env generate n c (arrayLiteral generate n) := by
  unfold Gen.arrayLiteral
  split
  · next elements hn =>
    have hc : c ∈ elements := by simpa [Node.operands, hn, Form.children] using hc
    have nodes (l : ArrayLayout) (f : ValueId → Gen Value) :
        Covers env generate n c (Gen.arrayOfNodes generate l elements n.span >>= f) :=
      covers (first (first (operands hc l.element)))
    refine rest fun t => rest fun l => after fun data hrun => ?_
    obtain ⟨s, s', hdata⟩ := hrun
    split
    · refine after fun config hrun => ?_
      obtain ⟨_, _, hconfig⟩ := hrun
      cases hconfig
      split
      · next hlong =>
        obtain ⟨hlen, hliteral⟩ := constantData_literal hdata
        exact fun _ _ _ _ => .inr (.constant hn hc hliteral (hlen ▸ hlong))
      · exact nodes l _
    · exact nodes l _
  · exact fail

theorem call (hc : c ∈ n.operands) : Covers env generate n c (call generate n) := by
  unfold Gen.call
  split
  · next callee args signature hn =>
    cases hcallee : callee.form with
    | member object property =>
      have hc : c = object ∨ c ∈ args := by simpa [Node.operands, hn, hcallee] using hc
      dsimp only
      refine after fun v hv => after fun o ho => ?_
      obtain ⟨s₁, s₂, hv⟩ := hv
      obtain ⟨_, _, ho⟩ := ho
      rcases hc with rfl | hc
      · exact fun _ _ _ _ => .inl ⟨s₁, v, s₂, hv⟩
      · have hisArray := intoObject_isArray ho
        obtain ⟨kind, address, type⟩ := o
        cases kind with
        | cls d => exact covers (classCall d _ property signature hc)
        | array l =>
          intro s a s' h
          have hc : c ∈ arrayArguments property args ∨
              c ∈ args.drop (arrayArguments property args).length := by
            unfold arrayArguments
            split
            · rw [← List.take_append_drop 1 args] at hc
              refine (List.mem_append.mp hc).imp id fun hc => ?_
              rw [List.length_take]
              cases args with
              | nil => cases hc
              | cons a args => exact hc
            · exact .inr hc
          rcases hc with hc | hc
          · exact .inl (of_passes (.arrayCall l _ property) hc s a s' h)
          · exact .inr (.surplus hn hcallee ⟨s₁, v, s₂, hv, hisArray.symm⟩ hc)
        | builtin b =>
          cases b
          exact covers (of_passes (.mathCall property) hc)
    | _ =>
      have hc : c ∈ args := by simpa [Node.operands, hn, hcallee] using hc
      cases signature with
      | none => exact fail
      | some signature => exact covers (emitCall signature none hc)
  · exact fail

/-! ### Expressions -/

theorem construct (hc : c ∈ n.operands) :
    OnlyIf env (Arrives env generate c) (construct generate n) := by
  unfold Gen.construct
  split
  · next callee args signature hn =>
    have hc : c ∈ args := by simpa [Node.operands, hn] using hc
    exact rest fun t => constructObject t signature hc
  · exact fail

theorem member (hc : c ∈ n.operands) :
    OnlyIf env (Arrives env generate c) (member generate n) := by
  unfold Gen.member
  split
  · next object property hn =>
    obtain rfl : c = object := by simpa [Node.operands, hn, Form.children] using hc
    exact first (node c)
  · exact fail

theorem index (hc : c ∈ n.operands) :
    OnlyIf env (Arrives env generate c) (index generate n) := by
  unfold Gen.index
  split
  · next object index hn =>
    have hc : c = object ∨ c = index := by simpa [Node.operands, hn, Form.children] using hc
    rcases hc with rfl | rfl
    · exact first (node c)
    · refine rest fun v => rest fun o => ?_
      unfold Gen.indexObject
      split
      · exact rest fun address => first (generateOperand c _)
      · exact fail
  · exact fail

theorem paren (hc : c ∈ n.operands) :
    OnlyIf env (Arrives env generate c) (paren generate n) := by
  unfold Gen.paren
  split
  · next inner hn =>
    obtain rfl : c = inner := by simpa [Node.operands, hn, Form.children] using hc
    exact node c
  · exact fail

theorem unary (hc : c ∈ n.operands) :
    OnlyIf env (Arrives env generate c) (unary generate n) := by
  unfold Gen.unary
  split
  · next op inner hn =>
    obtain rfl : c = inner := by simpa [Node.operands, hn, Form.children] using hc
    exact first (node c)
  · exact fail

theorem binary (hc : c ∈ n.operands) :
    OnlyIf env (Arrives env generate c) (binary generate n) := by
  unfold Gen.binary
  split
  · next op left right hn =>
    have hc : c = left ∨ c = right := by simpa [Node.operands, hn, Form.children] using hc
    refine rest fun t => ?_
    dsimp only
    split
    · refine first ?_
      rcases hc with rfl | rfl
      · exact first (logicalOperand op c)
      · refine rest fun l => rest fun block => rest fun rhs => rest fun merge => ?_
        dsimp only
        split
        · exact rest fun _ => rest fun _ => first (logicalOperand op c)
        · exact rest fun _ => rest fun _ => first (logicalOperand op c)
    · rcases hc with rfl | rfl
      · exact first (node c)
      · exact rest fun l => first (node c)
  · exact fail

theorem update (hc : c ∈ n.operands) :
    OnlyIf env (Arrives env generate c) (update generate n) := by
  unfold Gen.update
  split
  · next op before target hn =>
    obtain rfl : c = target := by simpa [Node.operands, hn, Form.children] using hc
    exact first (node c)
  · exact fail

theorem assignment (hc : c ∈ n.operands) :
    OnlyIf env (Arrives env generate c) (assignment generate n) := by
  unfold Gen.assignment
  split
  · next op target value hn =>
    have hc : c = target ∨ c = value := by simpa [Node.operands, hn, Form.children] using hc
    rcases hc with rfl | rfl
    · exact first (node c)
    · refine rest fun v => ?_
      split
      · split
        · exact first (node c)
        · split
          · exact fail
          · exact rest fun current => first (node c)
      · exact fail
  · exact fail

theorem conditional (hc : c ∈ n.operands) :
    OnlyIf env (Arrives env generate c) (conditional generate n) := by
  unfold Gen.conditional
  split
  · next cond thenExpr elseExpr hn =>
    have hc : c = cond ∨ c = thenExpr ∨ c = elseExpr := by
      simpa [Node.operands, hn, Form.children] using hc
    refine rest fun t => ?_
    rcases hc with rfl | rfl | rfl
    · exact first (condition c)
    · refine rest fun x => rest fun thenBlock => rest fun elseBlock => rest fun merge => ?_
      exact rest fun _ => rest fun _ => first (conditionalArm c t)
    · refine rest fun x => rest fun thenBlock => rest fun elseBlock => rest fun merge => ?_
      refine rest fun _ => rest fun _ => rest fun thenValue => rest fun thenEnd => ?_
      exact rest fun _ => rest fun _ => first (conditionalArm c t)
  · exact fail

theorem cast (hc : c ∈ n.operands) :
    OnlyIf env (Arrives env generate c) (cast generate n) := by
  unfold Gen.cast
  split
  · next inner hn =>
    obtain rfl : c = inner := by simpa [Node.operands, hn, Form.children] using hc
    exact first (node c)
  · exact fail

/-! ### Statements -/

theorem variableDeclaration (hc : c ∈ n.operands) :
    OnlyIf env (Arrives env generate c) (variableDeclaration generate n) := by
  unfold Gen.variableDeclaration
  split
  · next name init mutable hn =>
    obtain rfl : init = some c := by simpa [Node.operands, hn, Form.children] using hc
    exact rest fun t => first (generateOperand c t)
  · exact fail

theorem expressionStatement (hc : c ∈ n.operands) :
    OnlyIf env (Arrives env generate c) (expressionStatement generate n) := by
  unfold Gen.expressionStatement
  split
  · next e hn =>
    obtain rfl : c = e := by simpa [Node.operands, hn, Form.children] using hc
    exact first (node c)
  · exact fail

theorem block (hc : c ∈ n.operands) :
    OnlyIf env (Arrives env generate c) (block generate n) := by
  unfold Gen.block
  split
  · next body hn =>
    have hc : c ∈ body := by simpa [Node.operands, hn, Form.children] using hc
    exact rest fun f => first (statements hc)
  · exact fail

theorem ifElse (hc : c ∈ n.operands) :
    OnlyIf env (Arrives env generate c) (ifElse generate n) := by
  unfold Gen.ifElse
  split
  · next cond thenBranch elseBranch hn =>
    have hc : c = cond ∨ c = thenBranch ∨ elseBranch = some c := by
      simpa [Node.operands, hn, Form.children] using hc
    rcases hc with rfl | rfl | rfl
    · exact first (condition c)
    · refine rest fun x => rest fun thenBlock => ?_
      dsimp only
      split
      · exact rest fun merge => rest fun _ => rest fun _ => first (node c)
      · exact rest fun elseBlock => rest fun merge => rest fun _ => rest fun _ => first (node c)
    · refine rest fun x => rest fun thenBlock => rest fun elseBlock => rest fun merge => ?_
      refine rest fun _ => rest fun _ => rest fun _ => rest fun _ => ?_
      exact rest fun _ => first (node c)
  · exact fail

theorem whileLoop (hc : c ∈ n.operands) :
    OnlyIf env (Arrives env generate c) (whileLoop generate n) := by
  unfold Gen.whileLoop
  split
  · next cond body hn =>
    have hc : c = cond ∨ c = body := by simpa [Node.operands, hn, Form.children] using hc
    refine rest fun header => rest fun bodyBlock => rest fun exit => rest fun _ => rest fun _ => ?_
    rcases hc with rfl | rfl
    · exact first (condition c)
    · exact rest fun x => rest fun _ => rest fun _ => first (loopBody _ _)
  · exact fail

theorem doWhile (hc : c ∈ n.operands) :
    OnlyIf env (Arrives env generate c) (doWhile generate n) := by
  unfold Gen.doWhile
  split
  · next body cond hn =>
    have hc : c = body ∨ c = cond := by simpa [Node.operands, hn, Form.children] using hc
    refine rest fun bodyBlock => rest fun latch => rest fun exit => rest fun _ => rest fun _ => ?_
    rcases hc with rfl | rfl
    · exact first (loopBody _ _)
    · exact rest fun _ => rest fun _ => first (condition c)
  · exact fail

theorem forLoop (hc : c ∈ n.operands) :
    OnlyIf env (Arrives env generate c) (forLoop generate n) := by
  unfold Gen.forLoop
  split
  · next init cond update body hn =>
    have hc : init = some c ∨ cond = some c ∨ update = some c ∨ c = body := by
      simpa [Node.operands, hn, Form.children, or_assoc] using hc
    have body {x y : BlockId} {target : LoopTarget} {m : Gen Value}
        (hc : update = some c ∨ c = body) : OnlyIf env (Arrives env generate c) (do
          Gen.positionAt x
          Gen.loopBody generate body target y
          Gen.positionAt y
          Gen.generateOptional generate update
          m) := by
      refine rest fun _ => ?_
      rcases hc with hc | rfl
      · exact rest fun _ => rest fun _ => first (generateOptional hc)
      · exact first (loopBody _ _)
    refine rest fun outer => ?_
    rcases hc with hc | hc
    · exact first (generateOptional hc)
    · refine rest fun _ => rest fun header => rest fun bodyBlock => rest fun step => ?_
      refine rest fun exit => rest fun _ => rest fun _ => ?_
      dsimp only
      rcases hc with rfl | hc
      · exact first (condition c)
      · split
        · exact rest fun x => rest fun _ => body hc
        · exact rest fun _ => body hc
  · exact fail

theorem returnStatement (hc : c ∈ n.operands) :
    OnlyIf env (Arrives env generate c) (returnStatement generate n) := by
  unfold Gen.returnStatement
  split
  · next value hn =>
    obtain rfl : value = some c := by simpa [Node.operands, hn, Form.children] using hc
    refine rest fun f => ?_
    dsimp only
    split
    · exact first (node c)
    · exact first (generateOperand c _)
  · exact fail

/-! ### Bodies -/

theorem generateBody (sp : Specialization) (body : Node) (span : Span) :
    OnlyIf env (Arrives env generate body) (generateBody generate sp body span) := by
  have bound (index : Nat) : OnlyIf env (Arrives env generate body) (do
      Gen.bindParams generate index sp.params
      let _ ← generate body
      Gen.finishBody) :=
    rest fun _ => first (node body)
  unfold Gen.generateBody
  split
  · split
    · exact first fail
    · exact rest fun d => rest fun _ => bound _
  · exact bound _

/-! ### All kinds -/

/-- A node is generated only if its operands are, apart from those that it omits. -/
theorem standard (hc : c ∈ n.operands) : Covers env generate n c (Gen.standard generate n.kind n) := by
  have hk : n.kind = n.form.kind := rfl
  rw [hk]
  cases hn : n.form with
  | arrayLiteral elements => exact arrayLiteral hc
  | call callee args signature => exact call hc
  | construct callee args signature => exact covers (construct hc)
  | member object property => exact covers (member hc)
  | index object position => exact covers (index hc)
  | paren inner => exact covers (paren hc)
  | unary op operand => exact covers (unary hc)
  | binary op left right => exact covers (binary hc)
  | update op before target => exact covers (update hc)
  | assign op target value => exact covers (assignment hc)
  | conditional cond thenExpr elseExpr => exact covers (conditional hc)
  | cast inner => exact covers (cast hc)
  | variableDeclaration name init mutable => exact covers (variableDeclaration hc)
  | expressionStatement expr => exact covers (expressionStatement hc)
  | block body => exact covers (block hc)
  | ifElse cond thenBranch elseBranch => exact covers (ifElse hc)
  | whileLoop cond body => exact covers (whileLoop hc)
  | doWhile body cond => exact covers (doWhile hc)
  | forLoop init cond update body => exact covers (forLoop hc)
  | ret value => exact covers (returnStatement hc)
  | numericLiteral _ | booleanLiteral _ | undefinedLiteral | identifier _ | this | breakLoop
  | continueLoop | empty => simp [Node.operands, hn, Form.children] at hc
  | _ => exact fail

end OnlyIf

/-- A node that has been generated is in the registry, and its operands have been generated. -/
theorem arrives_succ (hr : env.registry.IsDiagonal) {depth : Nat}
    (h : Arrives env (Gen.generate (depth + 1)) n) : env.registry.contains n.kind = true ∧
      ∀ c ∈ n.operands, Arrives env (Gen.generate depth) c ∨ n.Omits env (Gen.generate depth) c := by
  obtain ⟨s, v, s', h⟩ := h
  obtain ⟨_, _, hread, h⟩ := bind_ok h
  cases hread
  cases hkind : env.registry.get? n.kind with
  | none =>
    rw [hkind] at h
    exact (fail_ok h).elim
  | some kind =>
    rw [hkind] at h
    cases hr n.kind kind hkind
    refine ⟨by rw [Registry.contains, hkind]; rfl, fun c hc => ?_⟩
    exact OnlyIf.standard hc s v s' h

end Gen

/-! ## Trees -/

/-- A part of a tree below an operand that the code leaves out. -/
def Node.Spares (env : Env) (root n : Node) : Prop :=
  ∃ depth above c, root.Demands above ∧ above.Omits env (Gen.generate depth) c ∧ c.Demands n

/-- In a tree that has been generated every evaluated part is in the registry, unless it is spared. -/
theorem Gen.Arrives.contains {env : Env} (hr : env.registry.IsDiagonal) {root n : Node} {depth : Nat}
    (h : Arrives env (Gen.generate depth) root) (hn : root.Demands n) :
    env.registry.contains n.kind = true ∨ root.Spares env n := by
  induction hn generalizing depth with
  | here n =>
    cases depth with
    | zero =>
      obtain ⟨s, v, s', h⟩ := h
      exact (throw_ok h).elim
    | succ depth => exact .inl (arrives_succ hr h).1
  | @operand n c part hc hpart ih =>
    cases depth with
    | zero =>
      obtain ⟨s, v, s', h⟩ := h
      exact (throw_ok h).elim
    | succ depth =>
      rcases (arrives_succ hr h).2 c hc with harrives | homits
      · refine (ih harrives).imp id ?_
        rintro ⟨depth', above, d, habove, homits, hd⟩
        exact ⟨depth', above, d, .operand hc habove, homits, hd⟩
      · exact .inr ⟨depth, n, c, .here n, homits, hpart⟩

namespace Compiler

variable {c : Compiler} {func : FuncId}

/-- The body of an entry point that a new compiler has compiled has been generated. -/
theorem arrives_of_compileEntry (hnew : c.unit.specializations = .empty) {id : FunctionId}
    (h : (c.compileEntry func).1 = .ok id) : ∃ decl body, c.env.program.function? func = some decl ∧
      decl.body = some body ∧ ∃ depth, Gen.Arrives c.env (Gen.generate depth) body := by
  obtain ⟨decl, sp, hsp⟩ : ∃ decl sp, Enters c.env.program func decl sp := by
    by_contra hnone
    obtain ⟨e, he⟩ := fails_of_refused (c := c) fun decl sp hsp => hnone ⟨decl, sp, hsp⟩
    cases h.symm.trans he
  have hleads : Gen.Leads c.env c.start (entry func)
      (fun _ _ => ∃ body, decl.body = some body ∧
        ∃ depth, Gen.Arrives c.env (Gen.generate depth) body) fun _ _ => True := by
    refine hsp.leads (fun id s hid => ?_) fun body params ret _ _ hbody => ?_
    · rw [hnew] at hid
      cases hid
    · refine .intro (fun a s hrun s' => ?_) fun _ _ _ => trivial
      exact ⟨body, hbody, _, Gen.OnlyIf.generateBody sp body decl.span _ a s hrun⟩
  rcases compileEntry_leads hleads with ⟨_, _, -, -, body, hbody, harrives⟩ | ⟨_, _, he, -⟩
  · exact ⟨decl, body, hsp.function, hbody, harrives⟩
  · cases h.symm.trans he

end Compiler

/-- Dispatch is closed. If a new compiler with any choice of standard generators compiles an entry
point, then every part of its body at a place where it is evaluated has a kind that is in the registry,
unless it stands in an operand that the code leaves out: an element of an array literal of numbers and
booleans that is longer than the threshold for constant data, or an argument that a method of arrays
does not take. -/
theorem compileEntry_contains {p : Program} {registry : Registry} (hr : registry.IsDiagonal)
    (config : Config) {func : FuncId} {id : FunctionId}
    (h : ((Compiler.new p config registry).compileEntry func).1 = .ok id) :
    ∃ decl body, p.function? func = some decl ∧ decl.body = some body ∧
      ∀ n, body.Demands n → registry.contains n.kind = true ∨
        body.Spares { program := p, config, registry } n := by
  obtain ⟨decl, body, hdecl, hbody, depth, harrives⟩ := Compiler.arrives_of_compileEntry rfl h
  exact ⟨decl, body, hdecl, hbody, fun n hn => harrives.contains hr hn⟩

/-- The literal `true`. -/
def trueNode : Node := .mk ⟨0⟩ .dummy .boolean (.booleanLiteral true)

/-- `{ [true, true, …]; }` with 17 elements. -/
def flagsBody : Node :=
  .mk ⟨0⟩ .dummy .void (.block [.mk ⟨0⟩ .dummy .void (.expressionStatement
    (.mk ⟨0⟩ .dummy (.array .boolean) (.arrayLiteral (List.replicate 17 trueNode))))])

def flagsProgram : Program :=
  { functions := #[{ name := "f", ret := .void, body := some flagsBody }] }

/-- Standard generators for blocks, expression statements and array literals. -/
def flagsRegistry : Registry :=
  [SyntaxKind.block, .expressionStatement, .arrayLiteral].foldl (fun r k => r.register k k) .empty

theorem demands_flagsBody : flagsBody.Demands trueNode :=
  .operand (List.mem_singleton_self _) (.operand (List.mem_singleton_self _)
    (.operand (List.mem_replicate.mpr ⟨by decide, rfl⟩) (.here trueNode)))

theorem compileEntry_flagsProgram :
    ((Compiler.new flagsProgram {} flagsRegistry).compileEntry ⟨0⟩).1.toOption.isSome = true := by
  decide +kernel

/-- The elements are not in the registry, and are not generated. -/
theorem compileEntry_contains_flags : flagsRegistry.IsDiagonal ∧
    (∃ id, ((Compiler.new flagsProgram {} flagsRegistry).compileEntry ⟨0⟩).1 = .ok id) ∧
    flagsRegistry.contains trueNode.kind = false ∧ flagsBody.Demands trueNode ∧
    flagsBody.Spares { program := flagsProgram, config := {}, registry := flagsRegistry }
      trueNode := by
  have hr : flagsRegistry.IsDiagonal := Registry.isDiagonal_foldl (fun _ _ h => by cases h) _
  have hcompiles := compileEntry_flagsProgram
  have hmissing : flagsRegistry.contains trueNode.kind = false := by decide
  cases hc : ((Compiler.new flagsProgram {} flagsRegistry).compileEntry ⟨0⟩).1 with
  | error e =>
    rw [hc] at hcompiles
    cases hcompiles
  | ok id =>
    refine ⟨hr, ⟨id, rfl⟩, hmissing, demands_flagsBody, ?_⟩
    obtain ⟨decl, body, hdecl, hbody, hall⟩ := compileEntry_contains hr {} hc
    cases hdecl
    cases hbody
    refine (hall trueNode demands_flagsBody).resolve_left fun h => ?_
    cases hmissing.symm.trans h

end TypedLowering
