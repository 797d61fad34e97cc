import TypedLowering.Lowering.Expression
import TypedLowering.Proofs.Coupling.Operator

/-!
Expressions in two runs side by side: what holds of the parts of an expression holds of it. Calls rest
on what is known of requests for specializations.
-/
namespace TypedLowering
set_option autoImplicit false
open Ssa

/-- `c` stands somewhere below `n`, in a place that is compiled. -/
def Node.Under (c n : Node) : Prop :=
  Relation.TransGen (fun c n : Node => ∃ q, (q, c) ∈ n.form.parts) c n

theorem Node.Under.of_part {c n : Node} {q : Position} (h : (q, c) ∈ n.form.parts) : c.Under n :=
  .single ⟨q, h⟩

theorem Node.Under.trans {b c n : Node} (h : b.Under c) (h' : c.Under n) : b.Under n :=
  Relation.TransGen.trans h h'

theorem Node.Under.everywhere {c n : Node} {P : Node → Prop} (hc : c.Under n) :
    n.Everywhere P → c.Everywhere P := by
  induction hc with
  | single hpart =>
    obtain ⟨q, hq⟩ := hpart
    exact fun h => h.part hq
  | tail _ hpart ih =>
    obtain ⟨q, hq⟩ := hpart
    exact fun h => ih (h.part hq)

namespace Gen.Coupling

variable {W : Type} [Preorder W] {K : Outlook W} {env env' : Env} {φ : StaticType → StaticType}
  {Calls : Signature → Prop} {Arg : StaticType → Prop} {generate generate' : Generate}
  {R : (α : Type) → W → (W → α → α → Prop) → Gen α → Gen α → Prop} {w : W} {n : Node}

variable (h : Coupling K env env' φ Calls Arg generate generate' R)

include h

/-! ## Literals and names -/

theorem arrayOfOperands {l : ArrayLayout} (hl : K.storage l.storage)
    {elements elements' : List ValueId} (he : List.Forall₂ K.value elements elements') (span : Span) :
    R ValueId w K.operand (Gen.arrayOfOperands l elements span)
      (Gen.arrayOfOperands l elements' span) := by
  unfold Gen.arrayOfOperands
  rw [he.length_eq]
  exact h.bind (h.emitConst _) fun _ _ _ _ hlength => h.callSupport _ _ hl (.cons hlength he)

theorem numericLiteral (n : Node) :
    R Value w K.result (Gen.numericLiteral n) (Gen.numericLiteral (n.retyped φ)) := by
  unfold Gen.numericLiteral
  rw [Node.form_retyped, Node.span_retyped]
  cases n.form with
  | numericLiteral text =>
    refine h.seq (h.nodeType n) fun _ t _ => h.bind (h.ofExcept _) ?_
    rintro _ c _ - ⟨rfl, -⟩
    exact h.map (h.emitConst c) fun _ _ _ _ he => .rvalue he _
  | _ => exact h.wrongForm

theorem booleanLiteral (n : Node) :
    R Value w K.result (Gen.booleanLiteral n) (Gen.booleanLiteral (n.retyped φ)) := by
  unfold Gen.booleanLiteral
  rw [Node.form_retyped]
  cases n.form with
  | booleanLiteral b => exact h.map (h.emitConst _) fun _ _ _ _ he => .rvalue he _
  | _ => exact h.wrongForm

theorem undefinedLiteral (n : Node) :
    R Value w K.result (Gen.undefinedLiteral n) (Gen.undefinedLiteral (n.retyped φ)) := by
  unfold Gen.undefinedLiteral
  rw [Node.span_retyped]
  refine h.seq (h.nodeType n) fun _ t _ => ?_
  split
  iterate 3 exact h.map (h.emitConst _) fun _ _ _ _ he => .rvalue he _
  exact h.unsupported

theorem arrayOfNodes {l : ArrayLayout} (hl : K.storage l.storage) {elements : List Node}
    (he : ∀ e ∈ elements, Couples K φ generate generate' R e) (span : Span) :
    R ValueId w K.operand (Gen.arrayOfNodes generate l elements span)
      (Gen.arrayOfNodes generate' l (elements.map (Node.retyped φ)) span) :=
  h.bind (h.operands he _) fun _ _ _ _ ho => h.arrayOfOperands hl ho _

omit h in
theorem arrayLiteral_eq (generate : Generate) {n : Node} {elements : List Node}
    (hform : n.form = .arrayLiteral elements) : Gen.arrayLiteral generate n = (do
      let l ← Gen.ofExcept (ArrayLayout.of (← Gen.nodeType n) n.span)
      return .object (.arrayAt l (← Gen.arrayOfLiteral generate l elements n.span))) := by
  unfold Gen.arrayLiteral Gen.arrayOfLiteral
  rw [hform]
  refine bind_congr fun t => bind_congr fun l => ?_
  rw [bind_assoc]
  refine bind_congr fun data => ?_
  cases data with
  | none => rfl
  | some data =>
    dsimp only
    rw [bind_assoc]
    refine bind_congr fun c => ?_
    split <;> rfl

theorem arrayLiteral (hp : ∀ c, c.Under n → Couples K φ generate generate' R c) :
    R Value w K.result (Gen.arrayLiteral generate n)
      (Gen.arrayLiteral generate' (n.retyped φ)) := by
  cases hform : n.form with
  | arrayLiteral elements =>
    have he : ∀ e ∈ elements, Couples K φ generate generate' R e := fun e hm =>
      hp e (.of_part (q := .expression) (by simp [hform, Form.parts, hm]))
    have hform' : (n.retyped φ).form = .arrayLiteral (elements.map (Node.retyped φ)) := by
      rw [Node.form_retyped, hform, Node.retypedForm, Node.retypedList_eq_map]
    rw [arrayLiteral_eq generate hform, arrayLiteral_eq generate' hform', Node.span_retyped]
    refine h.seq (h.nodeType n) fun _ t _ => h.bind (h.ofExcept _) ?_
    rintro _ l _ - ⟨rfl, hl⟩
    have hs := K.storage_of hl
    refine h.map (h.arrayOfLiteral elements n.span hl fun _ _ => h.arrayOfNodes hs he _) ?_
    exact fun _ _ _ _ ha => .object (.arrayAt hs ha)
  | _ =>
    unfold Gen.arrayLiteral
    rw [Node.form_retyped, hform]
    exact h.wrongForm

theorem identifier (n : Node) :
    R Value w K.result (Gen.identifier n) (Gen.identifier (n.retyped φ)) := by
  unfold Gen.identifier
  rw [Node.form_retyped, Node.span_retyped]
  cases n.form with
  | identifier name =>
    refine h.bind h.frame fun _ f f' _ hf => ?_
    have hb := hf.scope.get? name
    generalize f.scope.get? name = b, f'.scope.get? name = b' at hb ⊢
    cases hb with
    | some hb =>
      cases hb with
      | constant hx t => exact h.valueOf hx _ _
      | slot hp lowered t => exact h.pure (.assignable ⟨.slot hp _, _⟩)
    | none =>
      refine h.bind h.program ?_
      rintro _ _ _ - ⟨rfl, rfl⟩
      rw [h.similar.symbols_eq]
      split
      · exact h.pure (.object ⟨.builtin _, .none, _⟩)
      · exact h.map (h.descriptor _) fun _ _ _ _ hd => .object (.ofClass hd)
      · exact h.unsupported
      · exact h.internal
  | _ => exact h.wrongForm

theorem this (n : Node) :
    R Value w K.result (Gen.this n) (Gen.this (n.retyped φ)) := by
  unfold Gen.this
  rw [Node.span_retyped]
  refine h.bind h.frame fun _ f f' _ hf => ?_
  have hthis := hf.this
  generalize f.this = o, f'.this = o' at hthis ⊢
  cases hthis with
  | some ho => exact h.pure (.object ho)
  | none => exact h.internal

/-! ## Operators -/

theorem paren (hp : ∀ c, c.Under n → Couples K φ generate generate' R c) :
    R Value w K.result (Gen.paren generate n)
      (Gen.paren generate' (n.retyped φ)) := by
  unfold Gen.paren
  rw [Node.form_retyped]
  cases hform : n.form with
  | paren inner => exact hp inner (.of_part (q := .expression) (by simp [hform, Form.parts])) w
  | _ => exact h.wrongForm

theorem shortCircuit (op : BinaryOp) {left right : Node}
    (hl : Couples K φ generate generate' R left) (hr : Couples K φ generate generate' R right)
    (span : Span) :
    R Value w K.result (Gen.shortCircuit generate op left right span)
      (Gen.shortCircuit generate' op (left.retyped φ) (right.retyped φ) span) := by
  refine h.bind (h.logicalOperand op hl _) fun _ l l' _ hx => h.seq h.currentBlock fun _ b _ => ?_
  refine h.bind (h.appendBlock _) ?_
  rintro x₁ rhsBlock _ - ⟨rfl, hrhs⟩
  refine h.bind (h.appendBlock _) ?_
  rintro x₂ merge _ h₂ ⟨rfl, hmerge⟩
  have joined (x₃ : W) (h₃ : x₂ ≤ x₃) : R Value x₃ K.result
      (do
        Gen.positionAt rhsBlock
        let rhs ← Gen.logicalOperand generate op right span
        let rhsEnd ← Gen.currentBlock
        Gen.terminate (.br merge)
        Gen.positionAt merge
        return Value.rvalue (← Gen.emit (.phi .i1 [(l, b), (rhs, rhsEnd)])) .boolean)
      (do
        Gen.positionAt rhsBlock
        let rhs ← Gen.logicalOperand generate' op (right.retyped φ) span
        let rhsEnd ← Gen.currentBlock
        Gen.terminate (.br merge)
        Gen.positionAt merge
        return Value.rvalue (← Gen.emit (.phi .i1 [(l', b), (rhs, rhsEnd)])) .boolean) := by
    refine h.seq (h.positionAt (K.block_mono (h₂.trans h₃) hrhs)) fun x₄ _ h₄ => ?_
    refine h.bind (h.logicalOperand op hr _) fun x₅ r r' h₅ hy => ?_
    refine h.seq h.currentBlock fun x₆ _ h₆ => h.seq (h.terminate (.br _)) fun x₇ _ h₇ => ?_
    have hlast : x₂ ≤ x₇ := h₃.trans (h₄.trans (h₅.trans (h₆.trans h₇)))
    refine h.seq (h.positionAt (K.block_mono hlast hmerge)) fun _ _ _ => ?_
    exact h.map (h.emit (.phi _ hx hy _ _)) fun _ _ _ _ he => .rvalue he _
  dsimp only
  split
  · exact h.seq (h.terminate (.condBr hx _ _)) fun x₃ _ h₃ => joined x₃ h₃
  · exact h.seq (h.terminate (.condBr hx _ _)) fun x₃ _ h₃ => joined x₃ h₃

theorem binary (hp : ∀ c, c.Under n → Couples K φ generate generate' R c) :
    R Value w K.result (Gen.binary generate n)
      (Gen.binary generate' (n.retyped φ)) := by
  unfold Gen.binary
  rw [Node.form_retyped, Node.span_retyped]
  cases hform : n.form with
  | binary op left right =>
    have hl := hp left (.of_part (q := .expression) (by simp [hform, Form.parts]))
    have hr := hp right (.of_part (q := .expression) (by simp [hform, Form.parts]))
    refine h.seq (h.nodeType n) fun _ t _ => ?_
    dsimp only
    split
    · exact h.bind (h.shortCircuit _ hl hr _) fun _ _ _ _ hv => h.convert _ hv _ _
    · refine h.bind (hl _) fun _ v v' _ hv => h.bind (hr _) fun _ u u' hx hu => ?_
      refine h.bind (h.strictBinary _ (K.result_mono hx hv) hu _ _) ?_
      exact fun _ _ _ _ ha => h.convert _ ha _ _
  | _ => exact h.wrongForm

theorem unary (hp : ∀ c, c.Under n → Couples K φ generate generate' R c) :
    R Value w K.result (Gen.unary generate n)
      (Gen.unary generate' (n.retyped φ)) := by
  unfold Gen.unary
  rw [Node.form_retyped, Node.span_retyped]
  cases hform : n.form with
  | unary op inner =>
    have hi := hp inner (.of_part (q := .expression) (by simp [hform, Form.parts]))
    refine h.bind (hi _) fun _ v v' _ hv => ?_
    rw [hv.type_eq]
    refine h.bind (h.unaryOperand _ hv _) fun _ x x' _ hx => h.seq (h.nodeType n) fun _ t _ => ?_
    exact h.convert _ (.rvalue hx _) _ _
  | _ => exact h.wrongForm

theorem update (hp : ∀ c, c.Under n → Couples K φ generate generate' R c) :
    R Value w K.result (Gen.update generate n)
      (Gen.update generate' (n.retyped φ)) := by
  unfold Gen.update
  rw [Node.form_retyped, Node.span_retyped]
  cases hform : n.form with
  | update op before target =>
    have ht := hp target (.of_part (q := .expression) (by simp [hform, Form.parts]))
    refine h.bind (ht _) fun x v v' _ hv => ?_
    cases hv with
    | assignable ha =>
      dsimp only
      rw [ha.type_eq]
      split
      · exact h.unsupported
      · refine h.bind (h.load ha _) fun y₁ old old' h₁ hold => ?_
        refine h.bind (h.emitConst _) fun y₂ one one' h₂ hone => ?_
        refine h.bind (h.emitBinary _ hold hone) fun y₃ new new' h₃ hnew => ?_
        have hlast : x ≤ y₃ := h₁.trans (h₂.trans h₃)
        refine h.seq (h.store (K.assignable_mono hlast ha) hnew _) fun _ _ _ => ?_
        cases before with
        | true => exact h.pure (.rvalue hnew _)
        | false => exact h.pure (.rvalue hold _)
    | _ => exact h.internal
  | _ => exact h.wrongForm

theorem assignment (hp : ∀ c, c.Under n → Couples K φ generate generate' R c) :
    R Value w K.result (Gen.assignment generate n)
      (Gen.assignment generate' (n.retyped φ)) := by
  unfold Gen.assignment
  rw [Node.form_retyped, Node.span_retyped]
  cases hform : n.form with
  | assign op target value =>
    have ht := hp target (.of_part (q := .expression) (by simp [hform, Form.parts]))
    have hv := hp value (.of_part (q := .expression) (by simp [hform, Form.parts]))
    refine h.bind (ht _) fun x a a' _ ha => ?_
    cases ha with
    | assignable ha =>
      dsimp only
      rw [ha.type_eq]
      split
      · refine h.bind (hv _) fun y u u' hy hu => ?_
        exact h.assign (K.assignable_mono hy ha) hu _
      · split
        · exact h.unsupported
        · refine h.bind (h.load ha _) fun y₁ current current' h₁ hc => ?_
          refine h.bind (hv _) fun y₂ u u' h₂ hu => ?_
          refine h.bind (h.strictBinary _ (.rvalue hc _) hu _ _) fun y₃ r r' h₃ hr => ?_
          have hlast : x ≤ y₃ := h₁.trans (h₂.trans h₃)
          exact h.assign (K.assignable_mono hlast ha) hr _
    | _ => exact h.internal
  | _ => exact h.wrongForm

theorem conditional (hp : ∀ c, c.Under n → Couples K φ generate generate' R c) :
    R Value w K.result (Gen.conditional generate n)
      (Gen.conditional generate' (n.retyped φ)) := by
  unfold Gen.conditional
  rw [Node.form_retyped, Node.span_retyped]
  cases hform : n.form with
  | conditional cond thenExpr elseExpr =>
    have hc := hp cond (.of_part (q := .expression) (by simp [hform, Form.parts]))
    have ht := hp thenExpr (.of_part (q := .expression) (by simp [hform, Form.parts]))
    have he := hp elseExpr (.of_part (q := .expression) (by simp [hform, Form.parts]))
    refine h.seq (h.nodeType n) fun _ t _ => h.bind (h.condition hc) fun _ c c' _ hx => ?_
    refine h.bind (h.appendBlock _) ?_
    rintro x₁ thenBlock _ - ⟨rfl, hthen⟩
    refine h.bind (h.appendBlock _) ?_
    rintro x₂ elseBlock _ h₂ ⟨rfl, helse⟩
    refine h.bind (h.appendBlock _) ?_
    rintro x₃ merge _ h₃ ⟨rfl, hmerge⟩
    refine h.seq (h.terminate (.condBr hx _ _)) fun x₄ _ h₄ => ?_
    have h₁₄ : x₁ ≤ x₄ := h₂.trans (h₃.trans h₄)
    refine h.seq (h.positionAt (K.block_mono h₁₄ hthen)) fun x₅ _ h₅ => ?_
    refine h.bind (h.conditionalArm ht _ _) fun x₆ a a' h₆ ha => ?_
    refine h.seq h.currentBlock fun x₇ _ h₇ => h.seq (h.terminate (.br _)) fun x₈ _ h₈ => ?_
    have h₃₈ : x₃ ≤ x₈ := h₄.trans (h₅.trans (h₆.trans (h₇.trans h₈)))
    refine h.seq (h.positionAt (K.block_mono (h₃.trans h₃₈) helse)) fun x₉ _ h₉ => ?_
    refine h.bind (h.conditionalArm he _ _) fun y₁ b b' k₁ hb => ?_
    refine h.seq h.currentBlock fun y₂ _ k₂ => h.seq (h.terminate (.br _)) fun y₃ _ k₃ => ?_
    have hlast : x₃ ≤ y₃ := h₃₈.trans (h₉.trans (k₁.trans (k₂.trans k₃)))
    refine h.seq (h.positionAt (K.block_mono hlast hmerge)) fun _ _ _ => ?_
    cases ha with
    | none => exact h.pure .unit
    | some ha =>
      cases hb with
      | none => exact h.pure .unit
      | some hb =>
        refine h.seq (h.layout _ _) fun _ lowered _ => ?_
        exact h.bind (h.emit (.phi _ ha hb _ _)) fun _ _ _ _ hx => h.valueOf hx _ _
  | _ => exact h.wrongForm

theorem cast (hp : ∀ c, c.Under n → Couples K φ generate generate' R c) :
    R Value w K.result (Gen.cast generate n)
      (Gen.cast generate' (n.retyped φ)) := by
  unfold Gen.cast
  rw [Node.form_retyped, Node.span_retyped]
  cases hform : n.form with
  | cast inner =>
    have hi := hp inner (.of_part (q := .expression) (by simp [hform, Form.parts]))
    refine h.bind (hi _) fun _ v v' _ hv => h.seq (h.nodeType n) fun _ t hx => ?_
    exact h.convert _ (K.result_mono hx hv) _ _
  | _ => exact h.wrongForm

/-! ## Members and elements -/

/-- The object that a member is taken of. -/
theorem target {object : Node} (ho : Couples K φ generate generate' R object) (span : Span)
    {V : W → Value → Value → Prop} {f f' : ObjectRef → Gen Value}
    (hf : ∀ x o o', K.object x o o' → R Value x V (f o) (f' o')) :
    R Value w V
      (do
        let o ← Gen.intoObject (← generate object) span
        f o)
      (do
        let o ← Gen.intoObject (← generate' (object.retyped φ)) span
        f' o) :=
  h.bind (ho _) fun _ _ _ _ hv => h.bind (h.intoObject hv _) fun x o o' _ hk => hf x o o' hk

theorem getField {o o' : ObjectRef} (ho : K.object w o o') (member : String) (span : Span) :
    R Value w K.result (Gen.getField o member span)
      (Gen.getField o' member span) := by
  have hself := ho
  obtain ⟨hk, ha, t⟩ := ho
  cases hk with
  | cls hd =>
    obtain ⟨l, hl, rfl⟩ := hd
    unfold Gen.getField Gen.classField
    dsimp only [ClassDescriptor.field?]
    split
    · refine h.bind (h.requireAddress hself _) fun x object object' hx hobject => ?_
      exact h.pure (.assignable ⟨.field hobject (K.struct_mono hx hl) _ _, _⟩)
    · split
      · exact h.unsupported
      · exact h.internal
  | array hl =>
    unfold Gen.getField Gen.arrayField
    dsimp only
    split
    · refine h.bind (h.requireAddress hself _) fun _ array array' _ harray => ?_
      exact h.map (h.arrayLength harray) fun _ _ _ _ he => .rvalue he _
    · exact h.fail
  | builtin b =>
    cases b
    exact h.mathField member span

theorem member (hp : ∀ c, c.Under n → Couples K φ generate generate' R c) :
    R Value w K.result (Gen.member generate n)
      (Gen.member generate' (n.retyped φ)) := by
  unfold Gen.member
  rw [Node.form_retyped, Node.span_retyped]
  cases hform : n.form with
  | member object property =>
    have ho := hp object (.of_part (q := .expression) (by simp [hform, Form.parts]))
    exact h.target ho _ fun _ _ _ hk => h.getField hk _ _
  | _ => exact h.wrongForm

theorem index (hp : ∀ c, c.Under n → Couples K φ generate generate' R c) :
    R Value w K.result (Gen.index generate n)
      (Gen.index generate' (n.retyped φ)) := by
  unfold Gen.index
  rw [Node.form_retyped, Node.span_retyped]
  cases hform : n.form with
  | index object i =>
    have ho := hp object (.of_part (q := .expression) (by simp [hform, Form.parts]))
    have hi := hp i (.of_part (q := .expression) (by simp [hform, Form.parts]))
    refine h.target ho _ fun x o o' hk => ?_
    have hself := hk
    obtain ⟨hkind, ha, t⟩ := hk
    unfold Gen.indexObject
    cases hkind with
    | array hl =>
      refine h.bind (h.requireAddress hself _) fun _ array array' _ harray => ?_
      exact h.map (h.generateOperand hi _) fun _ _ _ _ he => .assignable ⟨.element harray he hl, _⟩
    | cls hd =>
      dsimp only
      rw [hself.typeName_eq]
      exact h.unsupported
    | builtin b => exact h.unsupported
  | _ => exact h.wrongForm

/-! ## Calls -/

/-- The type arguments that a call passes. -/
theorem typeArgs {signature : Signature} (hs : Calls signature) :
    R (List StaticType) w (fun _ ts ts' => ts = ts' ∧ ∀ t ∈ ts, Arg t)
      (signature.typeArgs.mapM Gen.resolveType)
      ((signature.typeArgs.map φ).mapM Gen.resolveType) := by
  have part : ∀ {ts : List StaticType} {x : W}, (∀ t ∈ ts, t ∈ signature.typeArgs) →
      R (List StaticType) x (fun _ ts ts' => ts = ts' ∧ ∀ t ∈ ts, Arg t)
        (ts.mapM Gen.resolveType) (ts.mapM (Gen.resolveType ∘ φ)) := by
    intro ts
    induction ts with
    | nil => exact fun _ => h.pure ⟨rfl, by simp⟩
    | cons t ts ih =>
      intro x hts
      rw [List.mapM_cons, List.mapM_cons]
      refine h.bind (h.resolveArg hs (hts t List.mem_cons_self)) ?_
      rintro _ u _ - ⟨rfl, hu⟩
      refine h.bind (ih fun t ht => hts t (List.mem_cons_of_mem _ ht)) ?_
      rintro _ us _ - ⟨rfl, hus⟩
      exact h.pure ⟨rfl, by simpa using ⟨hu, hus⟩⟩
  rw [List.mapM_map]
  exact part fun _ ht => ht

theorem argumentOperands {args : List Node} (ha : ∀ a ∈ args, Couples K φ generate generate' R a)
    (span : Span) : ∀ (index : Nat) (params : List ResolvedParam) {w : W},
      R (List ValueId) w K.operands (Gen.argumentOperands generate args span index params)
        (Gen.argumentOperands generate' (args.map (Node.retyped φ)) span index params)
  | _, [], _ => h.pure .nil
  | index, p :: rest, w => by
    have further (x : W) {here here' : List ValueId} (hh : List.Forall₂ K.value here here') :
        R (List ValueId) x K.operands
          (do return here ++ (← Gen.argumentOperands generate args span (index + 1) rest))
          (do
            return here' ++ (← Gen.argumentOperands generate' (args.map (Node.retyped φ)) span
              (index + 1) rest)) :=
      h.map (argumentOperands ha span (index + 1) rest) fun _ _ _ _ he => List.rel_append hh he
    have packed (x : W) {l : ArrayLayout} (hl : K.storage l.storage) : R (List ValueId) x K.operands
        (do
          let elements ← (args.drop index).mapM fun a => Gen.generateOperand generate a l.element
          let here ← Pure.pure [← Gen.arrayOfOperands l elements span]
          return here ++ (← Gen.argumentOperands generate args span (index + 1) rest))
        (do
          let elements ← ((args.map (Node.retyped φ)).drop index).mapM fun a =>
            Gen.generateOperand generate' a l.element
          let here ← Pure.pure [← Gen.arrayOfOperands l elements span]
          return here ++ (← Gen.argumentOperands generate' (args.map (Node.retyped φ)) span
            (index + 1) rest)) := by
      rw [← List.map_drop]
      refine h.bind (h.operands (fun a hm => ha a (List.mem_of_mem_drop hm)) _) fun _ _ _ _ ho => ?_
      refine h.bind (h.arrayOfOperands hl ho _) fun _ array array' _ harray => ?_
      exact h.bind (V := K.operands) (h.pure (.cons harray .nil)) fun _ _ _ _ hh => further _ hh
    unfold Gen.argumentOperands
    dsimp only
    split
    · split
      · refine h.bind (h.ofExcept _) ?_
        rintro x l _ - ⟨rfl, hl⟩
        exact packed x (K.storage_of hl)
      · refine h.bind (V := fun _ l l' => l = l' ∧ K.storage l.storage) h.internal ?_
        rintro x l _ - ⟨rfl, hl⟩
        exact packed x hl
    · split
      · cases hget : args[index]? with
        | some a =>
          rw [List.getElem?_map, hget]
          refine h.bind (h.generateOperand (ha a (List.mem_of_getElem? hget)) _)
            fun _ x x' _ hx => ?_
          exact h.bind (V := K.operands) (h.pure (.cons hx .nil)) fun _ _ _ _ hh => further _ hh
        | none =>
          rw [List.getElem?_map, hget]
          exact h.bind (V := K.operands) (h.throw (by simp) (by simp)) fun _ _ _ _ hh => further _ hh
      · exact h.bind (V := K.operands) (h.pure .nil) fun _ _ _ _ hh => further _ hh

/-- A call: both runs request the same specialization. -/
theorem emitCall {signature : Signature} (hs : Calls signature) {args : List Node}
    (ha : ∀ a ∈ args, Couples K φ generate generate' R a) {receiver receiver' : Option ValueId}
    (hr : Option.Rel K.value receiver receiver') (span : Span) :
    R Value w K.result
      (Gen.emitCall generate signature receiver args span)
      (Gen.emitCall generate' (signature.retyped φ) receiver' (args.map (Node.retyped φ)) span) := by
  have hreceiver : List.Forall₂ K.value receiver.toList receiver'.toList := by
    cases hr with
    | none => exact .nil
    | some hx => exact .cons hx .nil
  unfold Gen.emitCall
  rw [List.length_map]
  refine h.bind (h.typeArgs hs) ?_
  rintro _ typeArgs _ - ⟨rfl, htypes⟩
  refine h.bind (h.functionDecl _) ?_
  rintro _ decl _ - ⟨rfl, hdecl⟩
  refine h.bind h.program ?_
  rintro _ _ _ - ⟨rfl, rfl⟩
  rw [show (signature.retyped φ).func = signature.func from rfl, h.similar.resolve_eq]
  refine h.bind (h.ofExcept _) ?_
  rintro _ s _ - ⟨rfl, hresolve⟩
  refine h.bind (h.argumentOperands ha span 0 s.params) fun x operands operands' _ ho => ?_
  have hrequest := h.request (w := x) span hs htypes hdecl hresolve (List.rel_append hreceiver ho)
  have joined := h.bind hrequest fun _ _ _ _ hresult => h.valueOf hresult s.ret span
  rwa [bind_assoc, bind_assoc] at joined

theorem callMethod {o o' : ObjectRef} (ho : K.object w o o') (member : String)
    {args : List Node} (ha : ∀ a ∈ args, Couples K φ generate generate' R a)
    {signature : Option Signature} (hs : ∀ s, signature = some s → Calls s) (span : Span) :
    R Value w K.result
      (Gen.callMethod generate o member args signature span)
      (Gen.callMethod generate' o' member (args.map (Node.retyped φ))
        (signature.map (Signature.retyped φ)) span) := by
  have hself := ho
  obtain ⟨hk, haddress, t⟩ := ho
  cases hk with
  | cls hd =>
    obtain ⟨l, hl, rfl⟩ := hd
    unfold Gen.callMethod Gen.classCall
    cases signature with
    | none => exact h.internal
    | some signature =>
      refine h.bind (h.functionDecl _) ?_
      rintro x decl _ hx ⟨rfl, -⟩
      split
      · refine h.bind (h.requireAddress (K.object_mono hx hself) _) fun _ y y' _ hy => ?_
        exact h.emitCall (hs _ rfl) ha (.some hy) _
      · exact h.emitCall (hs _ rfl) ha .none _
  | array hl =>
    unfold Gen.callMethod Gen.arrayCall
    dsimp only
    split
    · refine h.bind (h.requireAddress hself _) fun _ array array' _ harray => ?_
      cases args with
      | nil => exact h.fail
      | cons item rest =>
        refine h.bind (h.generateOperand (ha item List.mem_cons_self) _) fun _ _ _ _ hvalue => ?_
        refine h.map (h.callSupport _ _ hl (.cons harray (.cons hvalue .nil))) ?_
        exact fun _ _ _ _ he => .rvalue he _
    · split
      · refine h.bind (h.requireAddress hself _) fun _ array array' _ harray => ?_
        exact h.bind (h.callSupport _ _ hl (.cons harray .nil)) fun _ _ _ _ hx => h.valueOf hx _ _
      · exact h.fail
  | builtin b =>
    cases b
    exact h.mathCall ha _ _

/-- A call that goes by its signature. -/
theorem callDirect {args : List Node} (ha : ∀ a ∈ args, Couples K φ generate generate' R a)
    (signature : Option Signature) (span : Span) : (∀ s, signature = some s → Calls s) →
    R Value w K.result
      (match signature with
        | some signature => Gen.emitCall generate signature none args span
        | none => Gen.internal "call without a resolved signature" span)
      (match signature.map (Signature.retyped φ) with
        | some signature => Gen.emitCall generate' signature none (args.map (Node.retyped φ)) span
        | none => Gen.internal "call without a resolved signature" span) := by
  intro hs
  cases signature with
  | none => exact h.internal
  | some signature => exact h.emitCall (hs _ rfl) ha .none _

theorem call (hs : ∀ s, n.signature? = some s → Calls s)
    (hp : ∀ c, c.Under n → Couples K φ generate generate' R c) :
    R Value w K.result (Gen.call generate n)
      (Gen.call generate' (n.retyped φ)) := by
  unfold Gen.call
  rw [Node.form_retyped, Node.span_retyped]
  cases hform : n.form with
  | call callee args signature =>
    have hcallee : callee.Under n := .of_part (q := .expression) (by simp [hform, Form.parts])
    have ha : ∀ a ∈ args, Couples K φ generate generate' R a := fun a hm =>
      hp a (.of_part (q := .expression) (by simp [hform, Form.parts, hm]))
    have hs : ∀ s, signature = some s → Calls s := fun s he =>
      hs s (by simp [Node.signature?, hform, he])
    rw [Node.retypedForm, Node.retypedList_eq_map]
    dsimp only
    rw [Node.form_retyped, Node.span_retyped]
    cases hcform : callee.form with
    | member object property =>
      have hobject : object.Under callee :=
        .of_part (q := .expression) (by simp [hcform, Form.parts])
      refine h.target (hp object (hobject.trans hcallee)) _ fun _ o o' ho => ?_
      exact h.callMethod ho _ ha hs _
    | _ => exact h.callDirect ha signature _ hs
  | _ => exact h.wrongForm

theorem classNew {d d' : ClassDescriptor} (hd : d.Alike (K.struct w) d') {args : List Node}
    (ha : ∀ a ∈ args, Couples K φ generate generate' R a) {signature : Option Signature}
    (hs : ∀ s, signature = some s → Calls s) (span : Span) :
    R Value w K.result (Gen.classNew generate d args signature span)
      (Gen.classNew generate' d' (args.map (Node.retyped φ)) (signature.map (Signature.retyped φ))
        span) := by
  have made {x : W} (hx : w ≤ x) {address address' : ValueId} (ha : K.value address address') :
      R Value x K.result (Pure.pure (Value.object (.instanceAt d address)))
        (Pure.pure (Value.object (.instanceAt d' address'))) :=
    h.pure (.object (.instanceAt (hd.mono fun _ _ => K.struct_mono hx) ha))
  obtain ⟨hsize, halign, hname, hconstructor⟩ : d'.size = d.size ∧ d'.align = d.align ∧
      d'.name = d.name ∧ d'.constructor = d.constructor := by
    obtain ⟨l, -, rfl⟩ := hd
    exact ⟨rfl, rfl, rfl, rfl⟩
  unfold Gen.classNew
  rw [hsize, halign, hname, hconstructor, List.isEmpty_map]
  refine h.bind (h.emitConst _) fun x₁ _ _ h₁ hs₁ => h.bind (h.emitConst _) fun x₂ _ _ h₂ hs₂ => ?_
  refine h.bind (h.callSupport _ _ trivial (.cons hs₁ (.cons hs₂ .nil)))
    fun x₃ address address' h₃ haddress => ?_
  have h₁₃ : w ≤ x₃ := h₁.trans (h₂.trans h₃)
  cases d.constructor with
  | some c =>
    cases signature with
    | none => exact h.seq h.internal fun x₄ _ h₄ => made (h₁₃.trans h₄) haddress
    | some signature =>
      refine h.bind (h.emitCall (hs _ rfl) ha (.some haddress) _) fun x₄ _ _ h₄ _ => ?_
      exact made (h₁₃.trans h₄) haddress
  | none =>
    cases signature with
    | none =>
      dsimp only [Option.map_none]
      split
      · exact h.seq h.internal fun x₄ _ h₄ => made (h₁₃.trans h₄) haddress
      · exact made h₁₃ haddress
    | some signature => exact h.seq h.internal fun x₄ _ h₄ => made (h₁₃.trans h₄) haddress

theorem arrayNew {l : ArrayLayout} (hl : K.storage l.storage) {args : List Node}
    (ha : ∀ a ∈ args, Couples K φ generate generate' R a) (span : Span) :
    R Value w K.result (Gen.arrayNew generate l args span)
      (Gen.arrayNew generate' l (args.map (Node.retyped φ)) span) := by
  have made (x : W) {length length' : ValueId} (hx : K.value length length') : R Value x K.result
      (do
        return Value.object (.arrayAt l
          (← Gen.callSupport (.arrayWithLength l.storage) [length] span)))
      (do
        return Value.object (.arrayAt l
          (← Gen.callSupport (.arrayWithLength l.storage) [length'] span))) :=
    h.map (h.callSupport _ _ hl (.cons hx .nil)) fun _ _ _ _ he => .object (.arrayAt hl he)
  unfold Gen.arrayNew
  match args with
  | [] => exact h.bind (h.emitConst _) fun _ _ _ _ hx => made _ hx
  | [a] => exact h.bind (h.generateOperand (ha a (by simp)) _) fun _ _ _ _ hx => made _ hx
  | _ :: _ :: _ => exact h.bind (V := K.operand) h.unsupported fun _ _ _ _ hx => made _ hx

theorem construct (hs : ∀ s, n.signature? = some s → Calls s)
    (hp : ∀ c, c.Under n → Couples K φ generate generate' R c) :
    R Value w K.result (Gen.construct generate n)
      (Gen.construct generate' (n.retyped φ)) := by
  unfold Gen.construct
  rw [Node.form_retyped, Node.span_retyped]
  cases hform : n.form with
  | construct callee args signature =>
    have ha : ∀ a ∈ args, Couples K φ generate generate' R a := fun a hm =>
      hp a (.of_part (q := .expression) (by simp [hform, Form.parts, hm]))
    have hs : ∀ s, signature = some s → Calls s := fun s he =>
      hs s (by simp [Node.signature?, hform, he])
    rw [Node.retypedForm, Node.retypedList_eq_map]
    refine h.seq (h.nodeType n) fun _ t _ => ?_
    unfold Gen.constructObject
    split
    · exact h.bind (h.descriptor _) fun _ d d' _ hd => h.classNew hd ha hs _
    · refine h.bind (h.ofExcept _) ?_
      rintro _ l _ - ⟨rfl, hl⟩
      exact h.arrayNew (K.storage_of hl) ha _
    · exact h.unsupported
    · exact h.unsupported
  | _ => exact h.wrongForm

end Gen.Coupling

end TypedLowering
