import TypedLowering.Lowering.Statement
import TypedLowering.Proofs.Typing.Call
import TypedLowering.Proofs.Typing.Operator

/-!
Statements at their types. Names are bound to operands and slots of their types, conditions are
truth values and what a function returns has its return type.
-/
namespace TypedLowering
set_option autoImplicit false
open Ssa Ssa.Function

namespace Gen

variable {env : Env} {w : TypedWorld env.program} {generate : Generate} {n : Node}

/-! ## Frames -/

/-- A scope from before is still one of typed names. -/
theorem setScope_typed {v : TypedWorld env.program} (h : v ≤ w) :
    Spec env w (setScope v.frame.scope) fun _ _ => True := by
  refine modifyFrame_typed rfl fun ha hfits => ⟨fun hb => ?_, hfits.this, hfits.ret⟩
  have hlater := TypedWorld.later h
  exact ((v.fits (hlater.agrees ha)).scope hb).prolong hlater.module (TypedWorld.prolongs h)

theorem bindConstant_typed {name : String} {x : ValueId} {t : StaticType} (hx : w.Holds x t) :
    Spec env w (modifyFrame fun f => { f with scope := f.scope.bindConstant name x t })
      fun _ _ => True := by
  refine modifyFrame_typed rfl fun ha hfits => ⟨fun {n b} hb => ?_, hfits.this, hfits.ret⟩
  by_cases hname : name = n
  · subst hname
    cases (Dict.get?_insert_self _ _ _).symm.trans hb
    exact hx ha
  · exact hfits.scope ((Dict.get?_insert_of_ne _ _ hname).symm.trans hb)

theorem openBlock_typed : Spec env w openBlock fun _ _ => True := by
  refine .read rfl ?_
  split
  · exact .bind appendBlock_typed fun _ _ _ _ => positionAt_typed
  · exact .pure trivial

/-! ## Runs of nodes -/

/-- A node that is generated for its effect. -/
theorem Types.runs (h : Types env generate n) : Spec env w (generate n) fun _ _ => True :=
  (h w).mono fun _ _ _ _ => trivial

theorem statements_typed {body : List Node} (h : ∀ c ∈ body, Types env generate c) :
    Spec env w (statements generate body) fun _ _ => True := by
  induction body generalizing w with
  | nil => exact .pure trivial
  | cons c rest ih =>
    refine .bind openBlock_typed fun _ x _ _ => ?_
    refine .bind (h c List.mem_cons_self).runs fun _ y _ _ => ?_
    exact ih fun c hc => h c (List.mem_cons_of_mem _ hc)

theorem generateOptional_typed {o : Option Node} (h : ∀ c ∈ o, Types env generate c) :
    Spec env w (generateOptional generate o) fun _ _ => True := by
  cases o with
  | none => exact .pure trivial
  | some c => exact .bind (h c rfl).runs fun _ _ _ _ => .pure trivial

theorem loopBody_typed {body : Node} {target : LoopTarget} {next : BlockId}
    (h : Types env generate body) :
    Spec env w (loopBody generate body target next) fun _ _ => True := by
  refine .bind (modifyFrame_typed rfl fun _ hfits => ⟨hfits.scope, hfits.this, hfits.ret⟩)
    fun _ x _ _ => .bind h.runs fun _ y _ _ => ?_
  exact .bind (modifyFrame_typed rfl fun _ hfits => ⟨hfits.scope, hfits.this, hfits.ret⟩)
    fun _ z _ _ => branchIfOpen_typed

/-- The jump on a condition, and what goes on in another block. -/
theorem branch_typed {α : Type} {cond : Node} {a b next : BlockId} {m : Gen α}
    {Q : α → TypedWorld env.program → Prop} (h : Types env generate cond)
    (hm : ∀ x, w ≤ x → Spec env x m Q) : Spec env w (do
      let c ← condition generate cond
      terminate (.condBr c a b)
      positionAt next
      m) Q :=
  .bind (condition_typed h) fun _ _ hx hc =>
    jump_typed (fun ha => (hc ha).hasType) fun y hy => hm y (hx.trans hy)

section Parts

variable (hp : ∀ q c, (q, c) ∈ n.form.parts → Types env generate c)
include hp

/-! ## Declarations and blocks -/

theorem variableDeclaration_typed :
    Spec env w (variableDeclaration generate n) fun v x => x.Yields v := by
  unfold variableDeclaration
  split
  · next name init mutable hform =>
    refine .read rfl ?_
    cases init with
    | some init =>
      have hi : Types env generate init := hp .expression init (by simp [hform, Form.parts])
      refine .bind (generateOperand_typed hi) fun a x _ ha => ?_
      split
      · exact .bind (bindLocal_typed ha) fun _ _ _ _ => .pure fun _ => trivial
      · exact .bind (bindConstant_typed ha) fun _ _ _ _ => .pure fun _ => trivial
    | none =>
      refine .bind layout_typed ?_
      rintro lowered _ - ⟨ht, rfl⟩
      split
      · next zero hzero =>
        refine .bind emitConst_typed fun a x _ ha => ?_
        rw [Constant.type_of_zero hzero] at ha
        exact .bind (bindLocal_typed (ha.holds ht)) fun _ _ _ _ => .pure fun _ => trivial
      · exact .bind (.unsupported (Q := fun _ _ => False)) fun _ _ _ h => h.elim
  · exact wrongForm_typed

theorem expressionStatement_typed :
    Spec env w (expressionStatement generate n) fun v x => x.Yields v := by
  unfold expressionStatement
  split
  · next e hform =>
    have he : Types env generate e := hp .expression e (by simp [hform, Form.parts])
    exact .bind he.runs fun _ _ _ _ => .pure fun _ => trivial
  · exact wrongForm_typed

theorem block_typed : Spec env w (block generate n) fun v x => x.Yields v := by
  unfold block
  split
  · next body hform =>
    have hb : ∀ c ∈ body, Types env generate c := fun c hc =>
      hp .item c (by simp [hform, Form.parts, hc])
    refine .read rfl (.bind (statements_typed hb) fun _ x hx _ => ?_)
    exact .bind (setScope_typed hx) fun _ _ _ _ => .pure fun _ => trivial
  · exact wrongForm_typed

/-! ## Branches and loops -/

theorem ifElse_typed : Spec env w (ifElse generate n) fun v x => x.Yields v := by
  unfold ifElse
  split
  · next cond thenBranch elseBranch hform =>
    have hc : Types env generate cond := hp .expression _ (by simp [hform, Form.parts])
    have ht : Types env generate thenBranch := hp .statement _ (by simp [hform, Form.parts])
    refine .bind (condition_typed hc) fun c x₁ _ hcond => ?_
    refine .bind appendBlock_typed fun thenBlock x₂ h₂ _ => ?_
    have hcond := TypedWorld.carries h₂ hcond
    -- a branch that goes on to a block
    have arm {b : Node} {merge next : BlockId} {m : Gen Value} (hb : Types env generate b)
        (hm : ∀ x : TypedWorld env.program, Spec env x m fun v y => y.Yields v)
        (x : TypedWorld env.program) : Spec env x (do
          let _ ← generate b
          branchIfOpen merge
          positionAt next
          m) fun v y => y.Yields v :=
      .bind hb.runs fun _ _ _ _ => .bind branchIfOpen_typed fun _ _ _ _ =>
        .bind positionAt_typed fun _ y _ _ => hm y
    have done (x : TypedWorld env.program) : Spec env x (pure .unit) fun v y => y.Yields v :=
      .pure fun _ => trivial
    split
    · refine .bind appendBlock_typed fun merge x₃ h₃ _ => ?_
      refine jump_typed (fun ha => (TypedWorld.carries h₃ hcond ha).hasType) fun y _ => ?_
      exact arm ht done y
    · next elseBranch =>
      have he : Types env generate elseBranch := hp .statement _ (by simp [hform, Form.parts])
      refine .bind appendBlock_typed fun elseBlock x₃ h₃ _ => ?_
      refine .bind appendBlock_typed fun merge x₄ h₄ _ => ?_
      refine jump_typed (fun ha => (TypedWorld.carries (h₃.trans h₄) hcond ha).hasType)
        fun y _ => ?_
      exact arm ht (arm he done) y
  · exact wrongForm_typed

theorem whileLoop_typed : Spec env w (whileLoop generate n) fun v x => x.Yields v := by
  unfold whileLoop
  split
  · next cond body hform =>
    have hc : Types env generate cond := hp .expression _ (by simp [hform, Form.parts])
    have hb : Types env generate body := hp .statement _ (by simp [hform, Form.parts])
    refine .bind appendBlock_typed fun header _ _ _ => ?_
    refine .bind appendBlock_typed fun bodyBlock _ _ _ => ?_
    refine .bind appendBlock_typed fun exit _ _ _ => ?_
    refine jump_typed (fun _ => trivial) fun x _ => branch_typed hc fun y _ => ?_
    exact .bind (loopBody_typed hb) fun _ _ _ _ => .bind positionAt_typed
      fun _ _ _ _ => .pure fun _ => trivial
  · exact wrongForm_typed

theorem doWhile_typed : Spec env w (doWhile generate n) fun v x => x.Yields v := by
  unfold doWhile
  split
  · next body cond hform =>
    have hb : Types env generate body := hp .statement _ (by simp [hform, Form.parts])
    have hc : Types env generate cond := hp .expression _ (by simp [hform, Form.parts])
    refine .bind appendBlock_typed fun bodyBlock _ _ _ => ?_
    refine .bind appendBlock_typed fun latch _ _ _ => ?_
    refine .bind appendBlock_typed fun exit _ _ _ => ?_
    refine jump_typed (fun _ => trivial) fun x _ => .bind (loopBody_typed hb) fun _ y _ _ => ?_
    exact .bind positionAt_typed fun _ _ _ _ => branch_typed hc fun _ _ => .pure fun _ => trivial
  · exact wrongForm_typed

theorem forLoop_typed : Spec env w (forLoop generate n) fun v x => x.Yields v := by
  unfold forLoop
  split
  · next init cond update body hform =>
    have hi : ∀ c ∈ init, Types env generate c := fun c hc =>
      hp .init c (by simp [hform, Form.parts, Option.mem_def.mp hc])
    have hu : ∀ c ∈ update, Types env generate c := fun c hc =>
      hp .expression c (by simp [hform, Form.parts, Option.mem_def.mp hc])
    have hb : Types env generate body := hp .statement body (by simp [hform, Form.parts])
    refine .read rfl (.bind (generateOptional_typed hi) fun _ x₁ h₁ _ => ?_)
    refine .bind appendBlock_typed fun header x₂ h₂ _ => ?_
    refine .bind appendBlock_typed fun bodyBlock x₃ h₃ _ => ?_
    refine .bind appendBlock_typed fun step x₄ h₄ _ => ?_
    refine .bind appendBlock_typed fun exit x₅ h₅ _ => ?_
    refine jump_typed (fun _ => trivial) fun x h₆ => ?_
    have hx : w ≤ x := h₁.trans (h₂.trans (h₃.trans (h₄.trans (h₅.trans h₆))))
    -- what follows the head of the loop
    have rest (y : TypedWorld env.program) (hy : x ≤ y) : Spec env y (do
        loopBody generate body ⟨exit, step⟩ step
        positionAt step
        generateOptional generate update
        terminate (.br header)
        positionAt exit
        setScope w.frame.scope
        return .unit) fun v z => z.Yields v := by
      refine .bind (loopBody_typed hb) fun _ y₁ k₁ _ => ?_
      refine .bind positionAt_typed fun _ y₂ k₂ _ => ?_
      refine .bind (generateOptional_typed hu) fun _ y₃ k₃ _ => ?_
      refine jump_typed (fun _ => trivial) fun z k₄ => ?_
      have hz : w ≤ z := hx.trans (hy.trans (k₁.trans (k₂.trans (k₃.trans k₄))))
      exact .bind (setScope_typed hz) fun _ _ _ _ => .pure fun _ => trivial
    split
    · next cond =>
      have hc : Types env generate cond := hp .expression _ (by simp [hform, Form.parts])
      exact branch_typed hc rest
    · exact jump_typed (fun _ => trivial) rest
  · exact wrongForm_typed

/-! ## Jumps -/

theorem returnStatement_typed :
    Spec env w (returnStatement generate n) fun v x => x.Yields v := by
  unfold returnStatement
  split
  · next value hform =>
    have hv : ∀ c ∈ value, Types env generate c := fun c hc =>
      hp .expression c (by simp [hform, Form.parts, Option.mem_def.mp hc])
    have bare {x : TypedWorld env.program} (hx : w ≤ x) (ht : w.frame.returnType = .void) :
        Spec env x (do
          terminate (.ret none)
          return Value.unit) fun v y => y.Yields v := by
      refine .bind (terminate_typed fun ha => ?_) fun _ _ _ _ => .pure fun _ => trivial
      have hret := (w.fits ((TypedWorld.later hx).agrees ha)).ret
      rw [ht] at hret
      exact (ret_of_signature (TypedWorld.prolongs hx).signature).trans (Except.ok.inj hret).symm
    refine .read rfl ?_
    split
    · next c =>
      dsimp only
      split
      · next ht => exact .bind (hv c rfl).runs fun _ x hx _ => bare hx ht
      · refine .bind (generateOperand_typed (hv c rfl)) fun a x hx ha => ?_
        refine .bind (terminate_typed fun hagree => ?_) fun _ _ _ _ => .pure fun _ => trivial
        have hret := (w.fits ((TypedWorld.later hx).agrees hagree)).ret
        show x.fn.HasType a x.fn.ret
        rw [ret_of_signature (TypedWorld.prolongs hx).signature]
        exact ((ha hagree).isOperand hret).hasType
    · dsimp only
      split
      · next ht => exact bare (le_refl w) ht
      · exact .bind (.internal (Q := fun _ _ => False)) fun _ _ _ h => h.elim
  · exact wrongForm_typed

omit hp

theorem breakLoop_typed : Spec env w (breakLoop n) fun v x => x.Yields v := by
  refine .read rfl ?_
  split
  · exact .bind (terminate_typed fun _ => trivial) fun _ _ _ _ => .pure fun _ => trivial
  · exact .internal

theorem continueLoop_typed : Spec env w (continueLoop n) fun v x => x.Yields v := by
  refine .read rfl ?_
  split
  · exact .bind (terminate_typed fun _ => trivial) fun _ _ _ _ => .pure fun _ => trivial
  · exact .internal

end Parts

end Gen

end TypedLowering
