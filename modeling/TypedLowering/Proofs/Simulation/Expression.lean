import TypedLowering.Proofs.Flow.Validity
import TypedLowering.Proofs.Simulation.Operator

/-!
The code of an expression computes its value, at every depth of generation: by induction on the
evaluation, with one case for each form. The variables of the store are known as the values that
their names stand for.
-/
namespace TypedLowering
set_option autoImplicit false
open Ssa Ssa.Function

/-- The value that a name stands for. -/
def Binding.toValue : Binding StaticType → Value
  | .constant v t => .rvalue v t
  | .slot ptr lowered t => .assignable ⟨.slot ptr lowered, t⟩

/-- The names of the variables are in scope, and what they hold is known. -/
def Scope.Lists (scope : Scope String StaticType) (σ : Store) (facts : Facts) : Prop :=
  ∀ name c, σ.get? name = some c → ∃ b, scope.get? name = some b ∧ (b.toValue, c) ∈ facts

namespace Gen

variable {env : Env} {n : Node} {σ : Store} {scope : Scope String StaticType} {facts : Facts}
  {depth : Nat} {c : Word}

/-! ## Structure -/

theorem pure_yields (hr : env.registry.IsDiagonal) (hn : n.IsPure) :
    Yields env (Gen.generate depth) n := by
  induction depth generalizing n with
  | zero => exact fun _ _ _ h => (throw_ok h).elim
  | succ depth ih =>
    intro w v s h
    have h := generate_succ_ok hr h
    have hpure := hn
    cases hn with
    | numericLiteral hf _ =>
      rw [show n.kind = .numericLiteral from congrArg Form.kind hf] at h
      exact numericLiteral_spec v s h
    | booleanLiteral hf =>
      rw [show n.kind = .booleanLiteral from congrArg Form.kind hf] at h
      exact booleanLiteral_spec v s h
    | identifier hf =>
      rw [show n.kind = .identifier from congrArg Form.kind hf] at h
      exact identifier_spec v s h
    | paren hf _ =>
      rw [show n.kind = .paren from congrArg Form.kind hf] at h
      exact paren_spec (fun e he => ih (hpure.of_paren he)) v s h
    | unary hf _ _ =>
      rw [show n.kind = .unary from congrArg Form.kind hf] at h
      exact unary_spec (fun op e he => ih (hpure.of_unary he).2) v s h
    | binary hf _ _ _ =>
      rw [show n.kind = .binary from congrArg Form.kind hf] at h
      refine binary_spec (fun op l r he => ?_) v s h
      obtain ⟨-, hl, hr⟩ := hpure.of_binary he
      exact ⟨ih hl, ih hr⟩
    | conditional hf _ _ _ _ =>
      rw [show n.kind = .conditional from congrArg Form.kind hf] at h
      refine conditional_spec (fun c t e he => ?_) v s h
      obtain ⟨-, hc, ht, he⟩ := hpure.of_conditional he
      exact ⟨ih hc, ih ht, ih he⟩

/-! ## Values -/

/-- What holds of the generator made for a kind holds of the generated node. -/
theorem Performs.of_standard {w : Site} {f : Value → Facts} {k : SyntaxKind}
    (hr : env.registry.IsDiagonal) (hk : n.kind = k)
    (h : Performs env w facts (standard (Gen.generate depth) k n) f) :
    Performs env w facts (Gen.generate (depth + 1) n) f := by
  intro ho v s hs
  have hs := generate_succ_ok hr hs
  rw [hk] at hs
  exact h ho v s hs

theorem identifier_performs {name : String} {w : Site} (hf : n.form = .identifier name)
    (hs : Scope.Lists w.frame.scope σ facts) (hc : σ.get? name = some c) :
    Performs env w facts (identifier n) fun v => [(v, c)] := by
  obtain ⟨b, hb, hin⟩ := hs name c hc
  unfold identifier
  rw [hf]
  refine .read rfl ?_
  rw [show w.state.frame.scope.get? name = some b from hb]
  cases b with
  | constant v t =>
    refine .assuming fun ho => ?_
    obtain rfl : t = c.type := (ho _ hin).2.1
    show Performs env w facts (valueOf v c.type n.span) _
    rw [valueOf_word c.isWord_type]
    exact .pure (by simpa [Binding.toValue] using hin)
  | slot ptr lowered t => exact .pure (by simpa [Binding.toValue] using hin)

theorem numericLiteral_performs {text : String} {i : Int} {w : Site}
    (hf : n.form = .numericLiteral text) (ht : n.type = .int)
    (hi : NumericText.int? text = some i) :
    Performs env w facts (numericLiteral n) fun v => [(v, .int (.ofInt 32 i))] := by
  unfold numericLiteral
  rw [hf]
  refine .read rfl ?_
  rw [ht]
  simp only [StaticType.substitute, numericConstant, hi, ofExcept, pure_bind]
  refine .bind (emitConst_performs (.int (.ofInt 32 i)) rfl) fun v x _ => ?_
  exact .pure (by simp)

theorem booleanLiteral_performs {b : Bool} {w : Site} (hf : n.form = .booleanLiteral b) :
    Performs env w facts (booleanLiteral n) fun v => [(v, .bool b)] := by
  unfold booleanLiteral
  rw [hf]
  exact .bind emitBool_performs fun v x _ => .pure (by simp)

/-- A value of the type of its node is not converted. -/
theorem castImplicit_performs {v : Value} {t : StaticType} {span : Span} {w : Site}
    (hv : (v, c) ∈ facts) (ht : t = c.type) :
    Performs env w facts (castImplicit v t span) fun v => [(v, c)] := by
  refine .assuming fun ho => ?_
  unfold castImplicit
  rw [convert_self ((ho _ hv).2.1.trans ht.symm)]
  exact .pure (by simpa using hv)

theorem type_eq_of_nodeType? {op : BinaryOp} {t : StaticType} {a b : Word}
    (ht : op.nodeType? = some t) (hop : op.apply a b = some c) : t = c.type := by
  cases op <;> cases a <;> cases b <;> simp_all [BinaryOp.nodeType?, BinaryOp.apply,
    BinaryOp.isIntegral] <;> subst ht <;> subst hop <;> rfl

theorem type_eq_of_unary {op : UnaryOp} {a : Word} (hop : op.apply a = some c) :
    op.nodeType = c.type := by
  cases op <;> cases a <;> cases hop <;> rfl

theorem type_of_unary {op : UnaryOp} {a : Word} (hop : op.apply a = some c) : a.type = c.type := by
  cases op <;> cases a <;> cases hop <;> rfl

theorem type_eq_of_stopsAt {op : BinaryOp} {t : StaticType} {p q : Bool}
    (ht : op.nodeType? = some t) (hop : op.stopsAt = some p) : t = (Word.bool q).type := by
  cases op <;> cases hop <;> exact (Option.some.inj ht).symm

theorem logical_of_stopsAt {op : BinaryOp} {p : Bool} (hop : op.stopsAt = some p) :
    op = .and ∨ op = .or := by
  cases op <;> cases hop <;> simp

theorem substitute_of_isWord {t : StaticType} (ht : t.isWord = true) (subst : Substitution) :
    t.substitute subst = t := by
  cases t <;> first | rfl | cases ht

/-- The value of a binary operator before it is converted to the type of the node. -/
def binaryValue (generate : Generate) (op : BinaryOp) (l r : Node) (t : StaticType) (span : Span) :
    Gen Value :=
  if op = .and ∨ op = .or then shortCircuit generate op l r span
  else do
    let lhs ← generate l
    let rhs ← generate r
    strictBinary op lhs rhs t span

theorem binary_eq {generate : Generate} {op : BinaryOp} {l r : Node}
    (hf : n.form = .binary op l r) : binary generate n = (do
      let t ← nodeType n
      let v ← binaryValue generate op l r t n.span
      castImplicit v t n.span) := by
  unfold binary binaryValue
  rw [hf]
  by_cases h : (op = .and ∨ op = .or) <;> simp only [h, if_true, if_false, bind_assoc]

theorem binary_performs {generate : Generate} {op : BinaryOp} {l r : Node} {w : Site}
    (hf : n.form = .binary op l r) (ht : n.type = c.type)
    (h : Performs env w facts (binaryValue generate op l r n.type n.span) fun v => [(v, c)]) :
    Performs env w facts (binary generate n) fun v => [(v, c)] := by
  rw [binary_eq hf]
  refine .read rfl ?_
  have hsub : n.type.substitute w.state.frame.subst = n.type :=
    substitute_of_isWord (by rw [ht]; exact c.isWord_type) _
  rw [hsub]
  exact .bind h fun v x _ => castImplicit_performs (by simp) ht

theorem evaluates_computes (hr : env.registry.IsDiagonal) (hs : Scope.Lists scope σ facts)
    (hn : n.IsPure) (h : n.Evaluates σ c) : Computes env (Gen.generate depth) scope facts n c := by
  induction h generalizing depth with
  | @numericLiteral n text i hf hi =>
    rintro w rfl
    cases depth with
    | zero => exact .of_failure fun _ _ h => throw_ok h
    | succ depth =>
      exact .of_standard hr (congrArg Form.kind hf)
        (numericLiteral_performs hf (hn.of_numericLiteral hf) hi)
  | @booleanLiteral n b hf =>
    rintro w rfl
    cases depth with
    | zero => exact .of_failure fun _ _ h => throw_ok h
    | succ depth => exact .of_standard hr (congrArg Form.kind hf) (booleanLiteral_performs hf)
  | @identifier n name c hf hc =>
    rintro w rfl
    cases depth with
    | zero => exact .of_failure fun _ _ h => throw_ok h
    | succ depth => exact .of_standard hr (congrArg Form.kind hf) (identifier_performs hf hs hc)
  | @paren n e c hf he ih =>
    rintro w rfl
    cases depth with
    | zero => exact .of_failure fun _ _ h => throw_ok h
    | succ depth =>
      refine .of_standard hr (congrArg Form.kind hf) ?_
      show Performs env w facts (paren (Gen.generate depth) n) _
      unfold paren
      rw [hf]
      exact ih (hn.of_paren hf) w rfl
  | @unary n e op a c hf he hop ih =>
    rintro w rfl
    cases depth with
    | zero => exact .of_failure fun _ _ h => throw_ok h
    | succ depth =>
      obtain ⟨ht, hpure⟩ := hn.of_unary hf
      refine .of_standard hr (congrArg Form.kind hf) ?_
      show Performs env w facts (unary (Gen.generate depth) n) _
      unfold unary
      rw [hf]
      refine .bind (ih hpure w rfl) fun v x _ => ?_
      refine .bind (unaryOperand_performs (a := a) (by simp) hop) fun r y _ => .read rfl ?_
      refine .assuming fun ho => ?_
      have hv : v.type = c.type := (ho (v, a) (by simp)).2.1.trans (type_of_unary hop)
      rw [ht, substitute_of_isWord (UnaryOp.isWord_nodeType op), hv]
      exact castImplicit_performs (by simp) (type_eq_of_unary hop)
  | @binary n l r op a b c hf _ _ hop ihl ihr =>
    rintro w rfl
    cases depth with
    | zero => exact .of_failure fun _ _ h => throw_ok h
    | succ depth =>
      obtain ⟨ht, hl, hr'⟩ := hn.of_binary hf
      have hstrict : ¬ (op = .and ∨ op = .or) := by
        rintro (rfl | rfl) <;> cases a <;> cases b <;> cases hop
      have htype : n.type = c.type := type_eq_of_nodeType? ht hop
      refine .of_standard hr (congrArg Form.kind hf) (binary_performs hf (c := c) htype ?_)
      rw [binaryValue, if_neg hstrict]
      refine .bind (ihl hl w rfl) fun lhs x hx => ?_
      refine .bind ((ihr hr' x (World.scope_eq hx)).mono (by simp) fun _ => List.Subset.refl _)
        fun rhs y _ => ?_
      refine strictBinary_performs (a := a) (b := b) (by simp) (by simp) hop fun hi => ?_
      obtain ⟨x, y, z, rfl, rfl, rfl⟩ := exists_int_of_apply hop hi
      rw [htype]
      rfl
  | @stop n l r op p hf hop _ ih =>
    rintro w rfl
    cases depth with
    | zero => exact .of_failure fun _ _ h => throw_ok h
    | succ depth =>
      obtain ⟨ht, hl, hr'⟩ := hn.of_binary hf
      refine .of_standard hr (congrArg Form.kind hf)
        (binary_performs hf (type_eq_of_stopsAt ht hop) ?_)
      rw [binaryValue, if_pos (logical_of_stopsAt hop)]
      exact shortCircuit_performs hop (ih hl) (pure_yields hr hr') (fun _ => rfl)
        fun hne => (hne rfl).elim
  | @goOn n l r op p q hf hop _ _ ihl ihr =>
    rintro w rfl
    cases depth with
    | zero => exact .of_failure fun _ _ h => throw_ok h
    | succ depth =>
      obtain ⟨ht, hl, hr'⟩ := hn.of_binary hf
      refine .of_standard hr (congrArg Form.kind hf)
        (binary_performs hf (type_eq_of_stopsAt ht hop) ?_)
      rw [binaryValue, if_pos (logical_of_stopsAt hop)]
      exact shortCircuit_performs hop (ihl hl) (pure_yields hr hr') (fun h => by simp at h)
        fun _ => ihr hr'
  | @conditional n c t e p k hf _ _ ihc iht =>
    rintro w rfl
    cases depth with
    | zero => exact .of_failure fun _ _ h => throw_ok h
    | succ depth =>
      obtain ⟨ht, hc, hthen, helse⟩ := hn.of_conditional hf
      refine .of_standard hr (congrArg Form.kind hf) ?_
      show Performs env w facts (conditional (Gen.generate depth) n) _
      rw [conditional_eq hf]
      refine .read rfl (.bind (condition_performs rfl (ihc hc)) fun r x hx => ?_)
      have harm : (if p then t else e).IsPure := by cases p <;> assumption
      have hsub : n.type.substitute w.state.frame.subst = n.type := substitute_of_isWord ht _
      rw [hsub]
      refine conditionalBranch_performs (p := p) ht (by simp) (pure_yields hr hthen) (pure_yields hr helse)
        fun y hy => ?_
      exact (iht harm y (hy.trans (World.scope_eq hx))).mono (by simp) fun _ => List.Subset.refl _

end Gen

end TypedLowering
