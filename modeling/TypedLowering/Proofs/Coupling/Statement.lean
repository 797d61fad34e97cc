import TypedLowering.Lowering.Dispatch
import TypedLowering.Proofs.Coupling.Expression

/-!
Statements and function bodies in two runs side by side, and with them all generators.
-/
namespace TypedLowering
set_option autoImplicit false
open Ssa

/-- The same parameter, whose default is a tree with other types. -/
def ResolvedParam.retyped (φ : StaticType → StaticType) (q : ResolvedParam) : ResolvedParam :=
  { q with default := q.default.map (Node.retyped φ) }

theorem ResolvedParam.retyped_self (q : ResolvedParam) : q.retyped (fun t => t) = q := by
  have hdefault : q.default.map (Node.retyped fun t => t) = q.default := by
    cases q.default with
    | none => rfl
    | some d => rw [Option.map_some, Node.retyped_self]
  rw [retyped, hdefault]

namespace Gen.Coupling

variable {W : Type} [Preorder W] {K : Outlook W} {env env' : Env} {φ : StaticType → StaticType}
  {Calls : Signature → Prop} {Arg : StaticType → Prop} {generate generate' : Generate}
  {R : (α : Type) → W → (W → α → α → Prop) → Gen α → Gen α → Prop} {w : W} {n : Node}

variable (h : Coupling K env env' φ Calls Arg generate generate' R)

include h

/-! ## Statements -/

theorem variableDeclaration (hp : ∀ c, c.Under n → Couples K φ generate generate' R c) :
    R Value w K.result (Gen.variableDeclaration generate n)
      (Gen.variableDeclaration generate' (n.retyped φ)) := by
  unfold Gen.variableDeclaration
  rw [Node.form_retyped, Node.span_retyped]
  cases hform : n.form with
  | variableDeclaration name init mutable =>
    refine h.seq (h.nodeType n) fun _ t _ => ?_
    dsimp only
    cases init with
    | some init =>
      have hi := hp init (.of_part (q := .expression) (by simp [hform, Form.parts]))
      refine h.bind (h.generateOperand hi _) fun _ x x' _ hx => ?_
      split
      · exact h.map (h.bindLocal _ hx _ _) fun _ _ _ _ _ => .unit
      · refine h.seq ?_ fun _ _ _ => h.pure .unit
        exact h.modifyScope fun _ _ hs => hs.insert name (.constant hx t)
    | none =>
      refine h.seq (h.layout _ _) fun _ lowered _ => ?_
      split
      · refine h.bind (h.emitConst _) fun _ x x' _ hx => ?_
        exact h.map (h.bindLocal _ hx _ _) fun _ _ _ _ _ => .unit
      · exact h.seq h.unsupported fun _ _ _ => h.pure .unit
  | _ => exact h.wrongForm

theorem expressionStatement (hp : ∀ c, c.Under n → Couples K φ generate generate' R c) :
    R Value w K.result (Gen.expressionStatement generate n)
      (Gen.expressionStatement generate' (n.retyped φ)) := by
  unfold Gen.expressionStatement
  rw [Node.form_retyped]
  cases hform : n.form with
  | expressionStatement e =>
    have he := hp e (.of_part (q := .expression) (by simp [hform, Form.parts]))
    exact h.map (he _) fun _ _ _ _ _ => .unit
  | _ => exact h.wrongForm

theorem openBlock : R Unit w (fun _ => Eq) Gen.openBlock Gen.openBlock := by
  refine h.seq h.isTerminated fun _ ended _ => ?_
  split
  · refine h.bind (h.appendBlock _) ?_
    rintro _ b _ - ⟨rfl, hb⟩
    exact h.positionAt hb
  · exact h.pure rfl

theorem statements : ∀ {body : List Node} {w : W},
    (∀ c ∈ body, Couples K φ generate generate' R c) →
    R Unit w (fun _ => Eq) (Gen.statements generate body)
      (Gen.statements generate' (body.map (Node.retyped φ)))
  | [], _, _ => h.pure rfl
  | c :: rest, _, hb => by
    refine h.seq h.openBlock fun _ _ _ => h.bind (hb c List.mem_cons_self _) fun _ _ _ _ _ => ?_
    exact statements fun c' hm => hb c' (List.mem_cons_of_mem _ hm)

theorem block (hp : ∀ c, c.Under n → Couples K φ generate generate' R c) :
    R Value w K.result (Gen.block generate n)
      (Gen.block generate' (n.retyped φ)) := by
  unfold Gen.block
  rw [Node.form_retyped]
  cases hform : n.form with
  | block body =>
    have hb : ∀ c ∈ body, Couples K φ generate generate' R c := fun c hm =>
      hp c (.of_part (q := .item) (by simp [hform, Form.parts, hm]))
    rw [Node.retypedForm, Node.retypedList_eq_map]
    refine h.bind h.frame fun _ f f' _ hf => h.seq (h.statements hb) fun _ _ _ => ?_
    exact h.map (h.setScope hf.scope) fun _ _ _ _ _ => .unit
  | _ => exact h.wrongForm

/-- A jump to a block and what goes on there. -/
theorem jump {α : Type} {V : W → α → α → Prop} {t t' : Terminator} (ht : t.Like K.value t')
    {b : BlockId} (hb : K.block w b) {m m' : Gen α} (hm : ∀ x, w ≤ x → R α x V m m') :
    R α w V
      (do
        Gen.terminate t
        Gen.positionAt b
        m)
      (do
        Gen.terminate t'
        Gen.positionAt b
        m') := by
  refine h.seq (h.terminate ht) fun x _ hx => ?_
  exact h.seq (h.positionAt (K.block_mono hx hb)) fun y _ hy => hm y (hx.trans hy)

/-- A branch that goes on to another block, unless it has ended. -/
theorem branch {c : Node} (hc : Couples K φ generate generate' R c) (next : BlockId)
    {b : BlockId} (hb : K.block w b) {m m' : Gen Value}
    (hm : ∀ x, w ≤ x → R Value x K.result m m') :
    R Value w K.result
      (do
        let _ ← generate c
        Gen.branchIfOpen next
        Gen.positionAt b
        m)
      (do
        let _ ← generate' (c.retyped φ)
        Gen.branchIfOpen next
        Gen.positionAt b
        m') := by
  refine h.bind (hc _) fun x _ _ hx _ => h.seq (h.branchIfOpen _) fun y _ hy => ?_
  have hwy : w ≤ y := hx.trans hy
  exact h.seq (h.positionAt (K.block_mono hwy hb)) fun z _ hz => hm z (hwy.trans hz)

theorem ifElse (hp : ∀ c, c.Under n → Couples K φ generate generate' R c) :
    R Value w K.result (Gen.ifElse generate n)
      (Gen.ifElse generate' (n.retyped φ)) := by
  unfold Gen.ifElse
  rw [Node.form_retyped]
  cases hform : n.form with
  | ifElse cond thenBranch elseBranch =>
    have hc := hp cond (.of_part (q := .expression) (by simp [hform, Form.parts]))
    have ht := hp thenBranch (.of_part (q := .statement) (by simp [hform, Form.parts]))
    refine h.bind (h.condition hc) fun _ c c' _ hx => h.bind (h.appendBlock _) ?_
    rintro x₁ thenBlock _ - ⟨rfl, hthen⟩
    dsimp only
    cases elseBranch with
    | none =>
      refine h.bind (h.appendBlock _) ?_
      rintro x₂ merge _ h₂ ⟨rfl, hmerge⟩
      refine h.jump (.condBr hx _ _) (K.block_mono h₂ hthen) fun x₃ h₃ => ?_
      exact h.branch ht _ (K.block_mono h₃ hmerge) fun _ _ => h.pure .unit
    | some elseBranch =>
      have he := hp elseBranch (.of_part (q := .statement) (by simp [hform, Form.parts]))
      refine h.bind (h.appendBlock _) ?_
      rintro x₂ elseBlock _ h₂ ⟨rfl, helse⟩
      refine h.bind (h.appendBlock _) ?_
      rintro x₃ merge _ h₃ ⟨rfl, hmerge⟩
      refine h.jump (.condBr hx _ _) (K.block_mono (h₂.trans h₃) hthen) fun x₄ h₄ => ?_
      refine h.branch ht _ (K.block_mono (h₃.trans h₄) helse) fun x₅ h₅ => ?_
      exact h.branch he _ (K.block_mono (h₄.trans h₅) hmerge) fun _ _ => h.pure .unit
  | _ => exact h.wrongForm

theorem loopBody {body : Node} (hb : Couples K φ generate generate' R body) (target : LoopTarget)
    (next : BlockId) :
    R Unit w (fun _ => Eq) (Gen.loopBody generate body target next)
      (Gen.loopBody generate' (body.retyped φ) target next) := by
  refine h.seq (h.modifyFrame ?_ (fun _ => ⟨rfl, rfl, rfl⟩) fun _ => ⟨rfl, rfl, rfl⟩)
    fun _ _ _ => ?_
  · exact fun f f' hf => { hf with loops := by rw [hf.loops] }
  refine h.bind (hb _) fun _ _ _ _ _ => ?_
  refine h.seq (h.modifyFrame ?_ (fun _ => ⟨rfl, rfl, rfl⟩) fun _ => ⟨rfl, rfl, rfl⟩)
    fun _ _ _ => h.branchIfOpen _
  exact fun f f' hf => { hf with loops := by rw [hf.loops] }

theorem whileLoop (hp : ∀ c, c.Under n → Couples K φ generate generate' R c) :
    R Value w K.result (Gen.whileLoop generate n)
      (Gen.whileLoop generate' (n.retyped φ)) := by
  unfold Gen.whileLoop
  rw [Node.form_retyped]
  cases hform : n.form with
  | whileLoop cond body =>
    have hc := hp cond (.of_part (q := .expression) (by simp [hform, Form.parts]))
    have hb := hp body (.of_part (q := .statement) (by simp [hform, Form.parts]))
    refine h.bind (h.appendBlock _) ?_
    rintro x₁ header _ - ⟨rfl, hheader⟩
    refine h.bind (h.appendBlock _) ?_
    rintro x₂ bodyBlock _ h₂ ⟨rfl, hbody⟩
    refine h.bind (h.appendBlock _) ?_
    rintro x₃ exit _ h₃ ⟨rfl, hexit⟩
    refine h.jump (.br _) (K.block_mono (h₂.trans h₃) hheader) fun x₄ h₄ => ?_
    refine h.bind (h.condition hc) fun x₅ c c' h₅ hx => ?_
    refine h.jump (.condBr hx _ _) (K.block_mono (h₃.trans (h₄.trans h₅)) hbody) fun x₆ h₆ => ?_
    refine h.seq (h.loopBody hb _ _) fun x₇ _ h₇ => ?_
    have hlast : x₃ ≤ x₇ := h₄.trans (h₅.trans (h₆.trans h₇))
    exact h.map (h.positionAt (K.block_mono hlast hexit)) fun _ _ _ _ _ => .unit
  | _ => exact h.wrongForm

theorem doWhile (hp : ∀ c, c.Under n → Couples K φ generate generate' R c) :
    R Value w K.result (Gen.doWhile generate n)
      (Gen.doWhile generate' (n.retyped φ)) := by
  unfold Gen.doWhile
  rw [Node.form_retyped]
  cases hform : n.form with
  | doWhile body cond =>
    have hc := hp cond (.of_part (q := .expression) (by simp [hform, Form.parts]))
    have hb := hp body (.of_part (q := .statement) (by simp [hform, Form.parts]))
    refine h.bind (h.appendBlock _) ?_
    rintro x₁ bodyBlock _ - ⟨rfl, hbody⟩
    refine h.bind (h.appendBlock _) ?_
    rintro x₂ latch _ h₂ ⟨rfl, hlatch⟩
    refine h.bind (h.appendBlock _) ?_
    rintro x₃ exit _ h₃ ⟨rfl, hexit⟩
    refine h.jump (.br _) (K.block_mono (h₂.trans h₃) hbody) fun x₄ h₄ => ?_
    refine h.seq (h.loopBody hb _ _) fun x₅ _ h₅ => ?_
    have h₃₅ : x₃ ≤ x₅ := h₄.trans h₅
    refine h.seq (h.positionAt (K.block_mono (h₃.trans h₃₅) hlatch)) fun x₆ _ h₆ => ?_
    refine h.bind (h.condition hc) fun x₇ c c' h₇ hx => ?_
    refine h.jump (.condBr hx _ _) (K.block_mono (h₃₅.trans (h₆.trans h₇)) hexit) fun _ _ => ?_
    exact h.pure .unit
  | _ => exact h.wrongForm

theorem generateOptional {part : Option Node}
    (hg : ∀ c, part = some c → Couples K φ generate generate' R c) :
    R Unit w (fun _ => Eq) (Gen.generateOptional generate part)
      (Gen.generateOptional generate' (part.map (Node.retyped φ))) := by
  cases part with
  | none => exact h.pure rfl
  | some c => exact h.map (hg c rfl _) fun _ _ _ _ _ => rfl

/-- A `for` loop from its body on. -/
theorem forLoopFrom {update : Option Node} {body : Node}
    (hu : ∀ c, update = some c → Couples K φ generate generate' R c)
    (hb : Couples K φ generate generate' R body) (header : BlockId)
    {bodyBlock step exit : BlockId} (hbody : K.block w bodyBlock) (hstep : K.block w step)
    (hexit : K.block w exit) {outer outer' : Scope String StaticType}
    (houter : Scope.Alike K.value outer outer') :
    R Value w K.result
      (do
        Gen.positionAt bodyBlock
        Gen.loopBody generate body ⟨exit, step⟩ step
        Gen.positionAt step
        Gen.generateOptional generate update
        Gen.terminate (.br header)
        Gen.positionAt exit
        Gen.setScope outer
        return Value.unit)
      (do
        Gen.positionAt bodyBlock
        Gen.loopBody generate' (body.retyped φ) ⟨exit, step⟩ step
        Gen.positionAt step
        Gen.generateOptional generate' (update.map (Node.retyped φ))
        Gen.terminate (.br header)
        Gen.positionAt exit
        Gen.setScope outer'
        return Value.unit) := by
  refine h.seq (h.positionAt hbody) fun x₁ _ h₁ => h.seq (h.loopBody hb _ _) fun x₂ _ h₂ => ?_
  have hw₂ : w ≤ x₂ := h₁.trans h₂
  refine h.seq (h.positionAt (K.block_mono hw₂ hstep)) fun x₃ _ h₃ => ?_
  refine h.seq (h.generateOptional hu) fun x₄ _ h₄ => ?_
  refine h.jump (.br _) (K.block_mono (hw₂.trans (h₃.trans h₄)) hexit) fun _ _ => ?_
  exact h.map (h.setScope houter) fun _ _ _ _ _ => .unit

theorem forLoop (hp : ∀ c, c.Under n → Couples K φ generate generate' R c) :
    R Value w K.result (Gen.forLoop generate n)
      (Gen.forLoop generate' (n.retyped φ)) := by
  unfold Gen.forLoop
  rw [Node.form_retyped]
  cases hform : n.form with
  | forLoop init cond update body =>
    have hi : ∀ c, init = some c → Couples K φ generate generate' R c := fun c he =>
      hp c (.of_part (q := .init) (by simp [hform, Form.parts, he]))
    have hu : ∀ c, update = some c → Couples K φ generate generate' R c := fun c he =>
      hp c (.of_part (q := .expression) (by simp [hform, Form.parts, he]))
    have hb := hp body (.of_part (q := .statement) (by simp [hform, Form.parts]))
    simp only [Node.retypedForm, Node.retypedOption_eq_map]
    refine h.bind h.frame fun _ f f' _ hf => h.seq (h.generateOptional hi) fun _ _ _ => ?_
    refine h.bind (h.appendBlock _) ?_
    rintro x₁ header _ - ⟨rfl, hheader⟩
    refine h.bind (h.appendBlock _) ?_
    rintro x₂ bodyBlock _ h₂ ⟨rfl, hbody⟩
    refine h.bind (h.appendBlock _) ?_
    rintro x₃ step _ h₃ ⟨rfl, hstep⟩
    refine h.bind (h.appendBlock _) ?_
    rintro x₄ exit _ h₄ ⟨rfl, hexit⟩
    have h₁₄ : x₁ ≤ x₄ := h₂.trans (h₃.trans h₄)
    refine h.jump (.br _) (K.block_mono h₁₄ hheader) fun x₅ h₅ => ?_
    have rest (x : W) (hx : x₄ ≤ x) := h.forLoopFrom (w := x) hu hb header
      (K.block_mono (h₃.trans (h₄.trans hx)) hbody) (K.block_mono (h₄.trans hx) hstep)
      (K.block_mono hx hexit) hf.scope
    cases cond with
    | some c =>
      have hc := hp c (.of_part (q := .expression) (by simp [hform, Form.parts]))
      refine h.bind (h.condition hc) fun x₆ x x' h₆ hx => ?_
      exact h.seq (h.terminate (.condBr hx _ _)) fun x₇ _ h₇ => rest x₇ (h₅.trans (h₆.trans h₇))
    | none => exact h.seq (h.terminate (.br _)) fun x₆ _ h₆ => rest x₆ (h₅.trans h₆)
  | _ => exact h.wrongForm

theorem returnStatement (hp : ∀ c, c.Under n → Couples K φ generate generate' R c) :
    R Value w K.result (Gen.returnStatement generate n)
      (Gen.returnStatement generate' (n.retyped φ)) := by
  unfold Gen.returnStatement
  rw [Node.form_retyped, Node.span_retyped]
  cases hform : n.form with
  | ret value =>
    refine h.bind h.frame fun _ f f' _ hf => ?_
    rw [hf.returnType]
    cases value with
    | some v =>
      have hv := hp v (.of_part (q := .expression) (by simp [hform, Form.parts]))
      dsimp only [Node.retypedForm, Node.retypedOption]
      split
      · refine h.bind (hv _) fun _ _ _ _ _ => ?_
        exact h.map (h.terminate (.ret .none)) fun _ _ _ _ _ => .unit
      · refine h.bind (h.generateOperand hv _) fun _ x x' _ hx => ?_
        exact h.map (h.terminate (.ret (.some hx))) fun _ _ _ _ _ => .unit
    | none =>
      dsimp only [Node.retypedForm, Node.retypedOption]
      split
      · exact h.map (h.terminate (.ret .none)) fun _ _ _ _ _ => .unit
      · exact h.seq h.internal fun _ _ _ => h.pure .unit
  | _ => exact h.wrongForm

/-- A jump out of the innermost loop or to its next round. -/
theorem breakLoop (n : Node) :
    R Value w K.result (Gen.breakLoop n)
      (Gen.breakLoop (n.retyped φ)) := by
  unfold Gen.breakLoop
  rw [Node.span_retyped]
  refine h.bind h.frame fun _ f f' _ hf => ?_
  rw [hf.loops]
  split
  · exact h.map (h.terminate (.br _)) fun _ _ _ _ _ => .unit
  · exact h.internal

theorem continueLoop (n : Node) :
    R Value w K.result (Gen.continueLoop n)
      (Gen.continueLoop (n.retyped φ)) := by
  unfold Gen.continueLoop
  rw [Node.span_retyped]
  refine h.bind h.frame fun _ f f' _ hf => ?_
  rw [hf.loops]
  split
  · exact h.map (h.terminate (.br _)) fun _ _ _ _ _ => .unit
  · exact h.internal

/-! ## All generators -/

theorem rejectKind {α : Type} {V : W → α → α → Prop} (kind : SyntaxKind) (n : Node) :
    R α w V (Gen.rejectKind kind n) (Gen.rejectKind kind (n.retyped φ)) := by
  unfold Gen.rejectKind
  rw [Node.span_retyped]
  exact h.fail

theorem standard (hs : ∀ s, n.signature? = some s → Calls s)
    (hp : ∀ c, c.Under n → Couples K φ generate generate' R c) (kind : SyntaxKind) :
    R Value w K.result (Gen.standard generate kind n)
      (Gen.standard generate' kind (n.retyped φ)) := by
  cases kind with
  | numericLiteral => exact h.numericLiteral n
  | booleanLiteral => exact h.booleanLiteral n
  | undefinedLiteral => exact h.undefinedLiteral n
  | arrayLiteral => exact h.arrayLiteral hp
  | identifier => exact h.identifier n
  | this => exact h.this n
  | member => exact h.member hp
  | index => exact h.index hp
  | paren => exact h.paren hp
  | unary => exact h.unary hp
  | binary => exact h.binary hp
  | update => exact h.update hp
  | assign => exact h.assignment hp
  | conditional => exact h.conditional hp
  | cast => exact h.cast hp
  | call => exact h.call hs hp
  | construct => exact h.construct hs hp
  | variableDeclaration => exact h.variableDeclaration hp
  | expressionStatement => exact h.expressionStatement hp
  | block => exact h.block hp
  | ifElse => exact h.ifElse hp
  | whileLoop => exact h.whileLoop hp
  | doWhile => exact h.doWhile hp
  | forLoop => exact h.forLoop hp
  | ret => exact h.returnStatement hp
  | breakLoop => exact h.breakLoop n
  | continueLoop => exact h.continueLoop n
  | empty => exact h.pure .unit
  | _ => exact h.rejectKind _ n

omit h in
/-- A node, if the relation holds of what is below it, whatever the registry. -/
theorem generateNode {depth depth' : Nat}
    (h : Coupling K env env' φ Calls Arg (Gen.generate depth) (Gen.generate depth') R)
    (hs : ∀ s, n.signature? = some s → Calls s)
    (hp : ∀ c, c.Under n → Couples K φ (Gen.generate depth) (Gen.generate depth') R c) :
    Couples K φ (Gen.generate (depth + 1)) (Gen.generate (depth' + 1)) R n := by
  intro w
  rw [Gen.generate, Gen.generate, Node.kind_retyped]
  refine h.bind h.reads ?_
  rintro _ _ _ - ⟨rfl, rfl⟩
  rw [h.similar.registry]
  split
  · exact h.standard hs hp _
  · exact h.rejectKind _ n

/-! ## Bodies -/

theorem bindParams : ∀ (next : Nat) (params : List ResolvedParam) {w : W},
    (∀ q ∈ params, ∀ d, q.default = some d → Couples K φ generate generate' R d) →
    R Unit w (fun _ => Eq) (Gen.bindParams generate next params)
      (Gen.bindParams generate' next (params.map (ResolvedParam.retyped φ)))
  | _, [], _, _ => h.pure rfl
  | next, q :: rest, w, hd => by
    have further (k : Nat) (x : W) : R Unit x (fun _ => Eq) (Gen.bindParams generate k rest)
        (Gen.bindParams generate' k (rest.map (ResolvedParam.retyped φ))) :=
      bindParams k rest fun r hr => hd r (List.mem_cons_of_mem _ hr)
    obtain ⟨name, type, optional, variadic, default, supplied, span⟩ := q
    cases supplied with
    | true => exact h.seq (h.bindLocal name (h.param next) type span) fun _ _ _ => further _ _
    | false =>
      cases default with
      | some d =>
        have hc := hd _ List.mem_cons_self d rfl
        refine h.bind (h.generateOperand hc type) fun _ x x' _ hx => ?_
        exact h.seq (h.bindLocal name hx type span) fun _ _ _ => further _ _
      | none => exact h.internal

theorem finishBody : R Unit w (fun _ => Eq) Gen.finishBody Gen.finishBody := by
  refine h.seq h.isTerminated fun _ ended _ => ?_
  split
  · refine h.bind h.frame fun _ f f' _ hf => ?_
    rw [hf.returnType]
    split
    · exact h.terminate (.ret .none)
    · exact h.terminate .unreachable
  · exact h.pure rfl

/-- The bodies of two specializations whose parameters and trees differ in types alone. -/
theorem generateBody {s s' : Specialization} (hname : s'.name = s.name) (howner : s'.owner = s.owner)
    (hinstance : s'.isInstance = s.isInstance)
    (hparams : s'.params = s.params.map (ResolvedParam.retyped φ)) {body : Node}
    (hb : Couples K φ generate generate' R body)
    (hd : ∀ q ∈ s.params, ∀ d, q.default = some d → Couples K φ generate generate' R d)
    (span : Span) :
    R Unit w (fun _ => Eq) (Gen.generateBody generate s body span)
      (Gen.generateBody generate' s' (body.retyped φ) span) := by
  have bound (first : Nat) (x : W) : R Unit x (fun _ => Eq)
      (do
        Gen.bindParams generate first s.params
        let _ ← generate body
        Gen.finishBody)
      (do
        Gen.bindParams generate' first (s.params.map (ResolvedParam.retyped φ))
        let _ ← generate' (body.retyped φ)
        Gen.finishBody) := by
    refine h.seq (h.bindParams _ _ hd) fun _ _ _ => h.bind (hb _) fun _ _ _ _ _ => ?_
    exact h.finishBody
  unfold Gen.generateBody
  rw [hname, howner, hinstance, hparams]
  dsimp only
  split
  · cases s.owner with
    | none => exact h.seq h.internal fun _ _ _ => bound _ _
    | some owner =>
      refine h.bind (h.descriptor _) fun _ d d' _ hd => ?_
      refine h.seq (h.modifyFrame ?_ (fun _ => ⟨rfl, rfl, rfl⟩) fun _ => ⟨rfl, rfl, rfl⟩)
        fun _ _ _ => bound _ _
      exact fun f f' hf => { hf with this := .some (.instanceAt hd (h.param 0)) }
  · exact bound _ _

end Gen.Coupling

end TypedLowering
