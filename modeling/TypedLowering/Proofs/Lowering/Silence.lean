import TypedLowering.Lowering.Compiler
import TypedLowering.Proofs.Lowering.Outcome
import TypedLowering.Proofs.Source.Placement

/-!
The value of statements has no operand. Code that cannot do without one fails on it, whatever the
state (`Fails`); code that gets along with it yields it again (`Silent`), and so do all statements.
-/
namespace TypedLowering
set_option autoImplicit false
open Ssa

namespace Gen

variable {α β : Type} {env : Env} {generate : Generate} {n : Node}

/-- A computation without results. -/
def Fails (env : Env) (m : Gen α) : Prop := ∀ s a s', m env s ≠ .ok a s'

/-- A computation whose results have no operand. -/
def Silent (env : Env) (m : Gen Value) : Prop := ∀ s v s', m env s = .ok v s' → v = .unit

namespace Fails

protected theorem throw {e : Failure} : Fails env (throw e : Gen α) := fun _ _ _ h => throw_ok h

theorem unsupported {op type : String} {span : Span} : Fails env (unsupported op type span : Gen α) :=
  Fails.throw

theorem internal {message : String} {span : Span} : Fails env (internal message span : Gen α) :=
  Fails.throw

/-- The first step fails. -/
protected theorem bind {m : Gen α} (hm : Fails env m) {f : α → Gen β} : Fails env (m >>= f) := by
  intro s b s' h
  obtain ⟨a, s₁, ha, -⟩ := bind_ok h
  exact hm s a s₁ ha

/-- All that can follow the first step fails. -/
theorem after {m : Gen α} {f : α → Gen β} (hf : ∀ a, Fails env (f a)) : Fails env (m >>= f) := by
  intro s b s' h
  obtain ⟨a, s₁, -, hb⟩ := bind_ok h
  exact hf a s₁ b s' hb

end Fails

namespace Silent

theorem of_fails {m : Gen Value} (hm : Fails env m) : Silent env m :=
  fun s v s' h => (hm s v s' h).elim

protected theorem pure : Silent env (pure .unit) := fun _ _ _ h => (pure_ok h).1

theorem after {m : Gen α} {f : α → Gen Value} (hf : ∀ a, Silent env (f a)) :
    Silent env (m >>= f) := by
  intro s v s' h
  obtain ⟨a, s₁, -, hv⟩ := bind_ok h
  exact hf a s₁ v s' hv

/-- What needs an operand fails on what a silent computation yields. -/
theorem fails {m : Gen Value} (hm : Silent env m) {f : Value → Gen β}
    (hf : Fails env (f .unit)) : Fails env (m >>= f) := by
  intro s b s' h
  obtain ⟨v, s₁, hv, hb⟩ := bind_ok h
  rw [hm s v s₁ hv] at hb
  exact hf s₁ b s' hb

theorem wrongForm {kind : SyntaxKind} : Silent env (wrongForm kind n) := .of_fails .internal

end Silent

/-! ## What needs an operand -/

theorem operand_fails (span : Span) : Fails env (operand .unit span) := .internal

theorem intoObject_fails (span : Span) : Fails env (intoObject .unit span) := .unsupported

theorem boxValue_fails (target : StaticType) (span : Span) :
    Fails env (boxValue .unit target span) :=
  .after fun _ => (operand_fails span).bind

/-- Without an operand there is nothing to convert, except to `void`. -/
theorem convert_silent (explicit : Bool) (span : Span) (target : StaticType) :
    Silent env (convert explicit .unit span target) := by
  induction target with
  | void => exact .pure
  | nullable inner ih => exact .of_fails (ih.fails (boxValue_fails _ span))
  | _ => exact .of_fails .unsupported

theorem castOperand_fails (t : StaticType) (span : Span) :
    Fails env (castOperand .unit t span) :=
  (convert_silent false span t).fails (operand_fails span)

theorem assign_fails (a : Assignable) (span : Span) : Fails env (assign a .unit span) :=
  (castOperand_fails a.type span).bind

theorem unaryOperand_fails (op : UnaryOp) (span : Span) :
    Fails env (unaryOperand op .unit span) := by
  cases op <;> exact .unsupported

/-! ### Binary operators -/

theorem requireArithmetic_fails (op : BinaryOp) (span : Span) :
    Fails env (requireArithmetic op .unit span) := .unsupported

theorem requireInteger_fails (op : BinaryOp) (span : Span) :
    Fails env (requireInteger op .unit span) := .unsupported

theorem equalitySide_fails (span : Span) : Fails env (equalitySide .unit span) :=
  (operand_fails span).bind

theorem comparePlain_fails_left (op : BinaryOp) (v : Value) (span : Span) :
    Fails env (comparePlain op .unit v span) := by
  have hpointer : isPointer Value.unit.type = false := rfl
  unfold comparePlain
  split
  iterate 5 next h _ => cases h
  · rw [hpointer, Bool.and_false, Bool.false_and]
    exact .unsupported
  · exact .unsupported

theorem comparePlain_fails_right (op : BinaryOp) (v : Value) (span : Span) :
    Fails env (comparePlain op v .unit span) := by
  have hpointer : isPointer Value.unit.type = false := rfl
  unfold comparePlain
  split
  iterate 5 next h => cases h
  · rw [hpointer, Bool.and_false]
    exact .unsupported
  · exact .unsupported

theorem compare_fails_left (op : BinaryOp) (v : Value) (span : Span) :
    Fails env (compare op .unit v span) := by
  unfold compare
  dsimp only
  split
  · split
    · exact (equalitySide_fails span).bind
    · exact .unsupported
  · exact comparePlain_fails_left op v span

theorem compare_fails_right (op : BinaryOp) (v : Value) (span : Span) :
    Fails env (compare op v .unit span) := by
  unfold compare
  dsimp only
  split
  · split
    · exact .after fun _ => (equalitySide_fails span).bind
    · exact .unsupported
  · exact comparePlain_fails_right op v span

theorem strictBinary_fails_left (op : BinaryOp) (v : Value) (t : StaticType) (span : Span) :
    Fails env (strictBinary op .unit v t span) := by
  unfold strictBinary
  split
  iterate 6 exact (requireArithmetic_fails _ span).bind
  iterate 6 exact (requireInteger_fails _ span).bind
  iterate 8 exact compare_fails_left _ v span
  all_goals exact .internal

theorem strictBinary_fails_right (op : BinaryOp) (v : Value) (t : StaticType) (span : Span) :
    Fails env (strictBinary op v .unit t span) := by
  unfold strictBinary
  split
  iterate 6 exact .after fun _ => (requireArithmetic_fails _ span).bind
  iterate 6 exact .after fun _ => (requireInteger_fails _ span).bind
  iterate 8 exact compare_fails_right _ v span
  all_goals exact .internal

/-! ## Statements -/

theorem expressionStatement_silent : Silent env (expressionStatement generate n) := by
  unfold expressionStatement
  split
  · exact .after fun _ => .pure
  · exact .wrongForm

theorem variableDeclaration_silent : Silent env (variableDeclaration generate n) := by
  unfold variableDeclaration
  split
  · refine .after fun t => ?_
    dsimp only
    split
    · refine .after fun x => ?_
      split
      · exact .after fun _ => .pure
      · exact .after fun _ => .pure
    · refine .after fun lowered => ?_
      split
      · exact .after fun _ => .after fun _ => .pure
      · exact .after fun _ => .pure
  · exact .wrongForm

theorem block_silent : Silent env (block generate n) := by
  unfold block
  split
  · repeat refine .after fun _ => ?_
    exact .pure
  · exact .wrongForm

theorem ifElse_silent : Silent env (ifElse generate n) := by
  unfold ifElse
  split
  · repeat refine .after fun _ => ?_
    dsimp only
    split
    · repeat refine .after fun _ => ?_
      exact .pure
    · repeat refine .after fun _ => ?_
      exact .pure
  · exact .wrongForm

theorem whileLoop_silent : Silent env (whileLoop generate n) := by
  unfold whileLoop
  split
  · repeat refine .after fun _ => ?_
    exact .pure
  · exact .wrongForm

theorem doWhile_silent : Silent env (doWhile generate n) := by
  unfold doWhile
  split
  · repeat refine .after fun _ => ?_
    exact .pure
  · exact .wrongForm

theorem forLoop_silent : Silent env (forLoop generate n) := by
  unfold forLoop
  split
  · repeat refine .after fun _ => ?_
    dsimp only
    split
    · repeat refine .after fun _ => ?_
      exact .pure
    · repeat refine .after fun _ => ?_
      exact .pure
  · exact .wrongForm

theorem returnStatement_silent : Silent env (returnStatement generate n) := by
  unfold returnStatement
  split
  · refine .after fun _ => ?_
    dsimp only
    split
    · split
      · exact .after fun _ => .after fun _ => .pure
      · exact .after fun _ => .after fun _ => .pure
    · split
      · exact .after fun _ => .pure
      · exact .after fun _ => .pure
  · exact .wrongForm

theorem breakLoop_silent : Silent env (breakLoop n) := by
  refine .after fun _ => ?_
  split
  · exact .after fun _ => .pure
  · exact .of_fails .internal

theorem continueLoop_silent : Silent env (continueLoop n) := by
  refine .after fun _ => ?_
  split
  · exact .after fun _ => .pure
  · exact .of_fails .internal

/-- Statements have no operand. -/
theorem standard_silent {kind : SyntaxKind} (hk : kind.isExpression = false) :
    Silent env (standard generate kind n) := by
  cases kind with
  | variableDeclaration => exact variableDeclaration_silent
  | expressionStatement => exact expressionStatement_silent
  | block => exact block_silent
  | ifElse => exact ifElse_silent
  | whileLoop => exact whileLoop_silent
  | doWhile => exact doWhile_silent
  | forLoop => exact forLoop_silent
  | ret => exact returnStatement_silent
  | breakLoop => exact breakLoop_silent
  | continueLoop => exact continueLoop_silent
  | empty => exact .pure
  | forIn | forOf | switch | tryCatch | throw | labeled => exact .of_fails .throw
  | _ => cases hk

end Gen

end TypedLowering
