import TypedLowering.Proofs.Flow.Validity
import TypedLowering.Proofs.Lowering.Persistence
import TypedLowering.Proofs.Ssa.Completion

/-!
Every block gets its end, once, and nothing behind it. While code is generated the current block is
open wherever a node is generated; expressions and declarations leave it open, other statements may
end it. The blocks that a branch or a loop adds wait, in the order in which they were added, until
the generator comes to them.

Main statements:

- `generate_completes`: generation of arranged trees never meets a block that already ends;
- `compile_completes`: the same for programs, whose definitions are complete in the end.
-/
namespace TypedLowering
set_option autoImplicit false
open Ssa

/-! ## States -/

namespace GenState

/-- The current block has no end yet. -/
def Open (s : GenState) : Prop :=
  ∃ f, s.unit.module.function? s.frame.function = some f ∧ f.Unended s.frame.block

/-- The current block ends. -/
def Ended (s : GenState) : Prop :=
  ∃ f, s.unit.module.function? s.frame.function = some f ∧ ¬ f.Unended s.frame.block

/-- Generation gets from `s₀` to `s`, where the blocks `later` of the current function wait, and all
functions that it has added are complete. -/
structure Reaches (s₀ s : GenState) (later : List BlockId) : Prop where
  function : s.frame.function = s₀.frame.function
  others : s₀.unit.module.Adds s.unit.module (· = s₀.frame.function) Function.Complete
  fills : ∃ f₀ f, s₀.unit.module.function? s₀.frame.function = some f₀ ∧
    s.unit.module.function? s₀.frame.function = some f ∧
    f₀.Fills s₀.frame.block f s.frame.block later

namespace Reaches

variable {s₀ s s' : GenState} {later later' : List BlockId} {b : BlockId}

theorem refl (h : s.Open) : s.Reaches s [] := by
  obtain ⟨f, hf, hu⟩ := h
  exact ⟨rfl, .refl _ _ _, f, f, hf, hf, .refl hu.1⟩

theorem trans (h : s₀.Reaches s later) (h' : s.Reaches s' []) : s₀.Reaches s' later := by
  obtain ⟨f₀, f, hf₀, hf, hfill⟩ := h.fills
  obtain ⟨f₁, f', hf₁, hf', hfill'⟩ := h'.fills
  rw [h.function] at hf₁ hf'
  rw [hf] at hf₁
  cases hf₁
  have ho := h'.others
  rw [h.function] at ho
  exact ⟨h'.function.trans h.function, h.others.trans ho, f₀, f', hf₀, hf', hfill.trans hfill'⟩

/-- A step on the current function. -/
theorem map (h : s₀.Reaches s later) {f : Function}
    (hf : s.unit.module.function? s.frame.function = some f) {g : Function → Function}
    (hg : ∀ f₀ : Function, f₀.Fills s₀.frame.block f s.frame.block later →
      f₀.Fills s₀.frame.block (g f) s.frame.block later') :
    s₀.Reaches (s.mapFunction g) later' := by
  obtain ⟨f₀, f', hf₀, hf', hfill⟩ := h.fills
  rw [h.function, hf'] at hf
  cases hf
  have hstep : s.unit.module.Adds (s.mapFunction g).unit.module (· = s₀.frame.function)
      Function.Complete := by
    rw [← h.function]
    exact .modifyFunction _ _ _
  refine ⟨h.function, h.others.trans hstep, f₀, g f, hf₀, ?_, hg f₀ hfill⟩
  rw [← h.function]
  exact s.function?_mapFunction (h.function ▸ hf') g

/-- A step that leaves the frame and the functions that are there alone. -/
theorem of_adds (h : s.Open) (hframe : s'.frame = s.frame)
    (hm : s.unit.module.Adds s'.unit.module (fun _ => False) Function.Complete) :
    s.Reaches s' [] ∧ s'.Open := by
  obtain ⟨f, hf, hu⟩ := h
  have hf' := hm.kept not_false hf
  have hb : s'.frame.block = s.frame.block := congrArg Frame.block hframe
  have hfn : s'.frame.function = s.frame.function := congrArg Frame.function hframe
  refine ⟨⟨hfn, hm.weaken fun _ => False.elim, f, f, hf, hf', ?_⟩, f, ?_, ?_⟩
  · rw [hb]
    exact .refl hu.1
  · rw [hfn]
    exact hf'
  · rw [hb]
    exact hu

/-- A step that changes the frame but neither function nor block. -/
theorem withFrame (h : s₀.Reaches s later) {frame : Frame}
    (hf : frame.function = s.frame.function) (hb : frame.block = s.frame.block) :
    s₀.Reaches { s with frame } later := by
  obtain ⟨f₀, f, hf₀, hf', hfill⟩ := h.fills
  refine ⟨hf.trans h.function, h.others, f₀, f, hf₀, hf', ?_⟩
  show f₀.Fills s₀.frame.block f frame.block later
  rw [hb]
  exact hfill

/-- Going on in the block that has waited longest. -/
theorem move (h : s₀.Reaches s (b :: later)) (he : s.Ended) :
    s₀.Reaches { s with frame := { s.frame with block := b } } later ∧
      ({ s with frame := { s.frame with block := b } } : GenState).Open := by
  obtain ⟨f₀, f, hf₀, hf, hfill⟩ := h.fills
  obtain ⟨f', hf', hended⟩ := he
  rw [h.function, hf] at hf'
  cases hf'
  refine ⟨⟨h.function, h.others, f₀, f, hf₀, hf, hfill.move hended⟩, f, ?_, ?_⟩
  · show s.unit.module.function? s.frame.function = some f
    rw [h.function, hf]
  · exact hfill.unended_waiting List.mem_cons_self

end Reaches

end GenState

namespace Gen

variable {α β : Type} {env : Env} {generate : Generate}

/-! ## Steps -/

/-- A run of `m` from `s` ends with `Q` if it succeeds, and it never meets a block that ends. -/
def Proceeds (env : Env) (s : GenState) (m : Gen α) (Q : α → GenState → Prop) : Prop :=
  Leads env s m Q fun e _ => e ≠ .misplaced

/-- Code that leaves the current block open. -/
def Flows (env : Env) (α : Type) (m : Gen α) : Prop :=
  ∀ s, s.Open → Proceeds env s m fun _ s' => s.Reaches s' [] ∧ s'.Open

/-- Code that may end the current block. -/
def Advances (env : Env) (α : Type) (m : Gen α) : Prop :=
  ∀ s, s.Open → Proceeds env s m fun _ s' => s.Reaches s' []

theorem Flows.advances {m : Gen α} (h : Flows env α m) : Advances env α m :=
  fun s hs => (h s hs).mono (fun _ _ h => h.1) fun _ _ h => h

theorem isTerminated_run {s : GenState} {f : Function} (b : Bool)
    (hf : s.unit.module.function? s.frame.function = some f)
    (hb : f.isTerminated s.frame.block = b) : isTerminated env s = .ok b s := by
  show EStateM.Result.ok (s.query false fun f => f.isTerminated s.frame.block) s = _
  rw [s.query_eq hf, hb]

theorem requireOpen_run (env : Env) {s : GenState} (h : s.Open) : requireOpen env s = .ok () s := by
  obtain ⟨f, hf, -, hu⟩ := h
  have ht : isTerminated env s = .ok false s :=
    isTerminated_run false hf (by rw [Function.isTerminated_eq, hu]; rfl)
  unfold requireOpen
  rw [run_bind, ht]
  rfl

/-- An instruction goes to the end of the current block. -/
theorem emit_run (env : Env) {s : GenState} (h : s.Open) (d : Definition) :
    emit d env s = .ok (s.query .absent Function.nextValue)
      (s.mapFunction fun f => f.append s.frame.block d) := by
  unfold emit
  rw [run_bind, requireOpen_run env h]
  rfl

section Steps

variable {s₀ s : GenState} {later : List BlockId} {b : BlockId} {Q : β → GenState → Prop}

theorem Flows.andThen {m : Gen α} (hm : Flows env α m) {f : α → Gen β} (h : s₀.Reaches s later)
    (ho : s.Open) (k : ∀ a s', s₀.Reaches s' later → s'.Open → Proceeds env s' (f a) Q) :
    Proceeds env s (m >>= f) Q :=
  (hm s ho).bind fun a s' _ h' => k a s' (h.trans h'.1) h'.2

/-- At the end of a run. -/
theorem Flows.last {m : Gen β} (hm : Flows env β m) (h : s₀.Reaches s later) (ho : s.Open) :
    Proceeds env s m fun _ s' => s₀.Reaches s' later ∧ s'.Open :=
  (hm s ho).mono (fun _ _ h' => ⟨h.trans h'.1, h'.2⟩) fun _ _ h => h

theorem Advances.andThen {m : Gen α} (hm : Advances env α m) {f : α → Gen β}
    (h : s₀.Reaches s later) (ho : s.Open)
    (k : ∀ a s', s₀.Reaches s' later → Proceeds env s' (f a) Q) : Proceeds env s (m >>= f) Q :=
  (hm s ho).bind fun a s' _ h' => k a s' (h.trans h')

/-- A new block waits. -/
theorem appendBlock_leads {word : String} (h : s₀.Reaches s later) :
    Proceeds env s (appendBlock word) fun b s' =>
      s₀.Reaches s' (later ++ [b]) ∧ (s.Open → s'.Open) ∧ (s.Ended → s'.Ended) := by
  obtain ⟨f₀, f, hf₀, hf, hfill⟩ := h.fills
  rw [← h.function] at hf
  have hf' := s.function?_mapFunction hf fun f => f.addBlock word
  have hsame : (f.addBlock word).Unended s.frame.block ↔ f.Unended s.frame.block := by
    rw [Function.unended_addBlock, or_iff_left]
    intro he
    exact Function.not_hasBlock_nextBlock _ (he ▸ hfill.inside)
  refine .of_ok rfl ?_
  rw [s.query_eq hf]
  refine ⟨h.map hf fun f₀ hfill => hfill.addBlock word, ?_, ?_⟩
  · rintro ⟨g, hg, hu⟩
    cases hf.symm.trans hg
    exact ⟨_, hf', hsame.mpr hu⟩
  · rintro ⟨g, hg, hu⟩
    cases hf.symm.trans hg
    exact ⟨_, hf', fun hn => hu (hsame.mp hn)⟩

theorem appendBlock_andThen {word : String} {f : BlockId → Gen β} (h : s₀.Reaches s later)
    (ho : s.Open)
    (k : ∀ b s', s₀.Reaches s' (later ++ [b]) → s'.Open → Proceeds env s' (f b) Q) :
    Proceeds env s (appendBlock word >>= f) Q :=
  .bind (appendBlock_leads h) fun b s' _ h' => k b s' h'.1 (h'.2.1 ho)

theorem terminate_leads {t : Terminator} (h : s₀.Reaches s later) (ho : s.Open) :
    Proceeds env s (terminate t) fun _ s' => s₀.Reaches s' later ∧ s'.Ended := by
  have hopen := requireOpen_run env ho
  obtain ⟨fn, hfn, hu⟩ := ho
  refine .read hopen (.of_ok rfl ?_)
  refine ⟨h.map hfn fun f₀ hfill => hfill.terminate t, fn.terminate s.frame.block t,
    s.function?_mapFunction hfn _, ?_⟩
  show ¬ (fn.terminate s.frame.block t).Unended s.frame.block
  simp [Function.unended_terminate hu.1]

/-- The jump at the end of a block, and what goes on in the block that has waited longest. -/
theorem jump_andThen {t : Terminator} {m : Gen β} (h : s₀.Reaches s (b :: later)) (ho : s.Open)
    (k : ∀ s', s₀.Reaches s' later → s'.Open → Proceeds env s' m Q) :
    Proceeds env s (do
      terminate t
      positionAt b
      m) Q := by
  refine .bind (terminate_leads h ho) fun _ s₁ _ h₁ => ?_
  have hmove := h₁.1.move h₁.2
  exact .bind (Q := fun _ s' => s₀.Reaches s' later ∧ s'.Open) (.of_ok rfl hmove) fun _ s₂ _ h₂ =>
    k s₂ h₂.1 h₂.2

/-- A reached block is known to end or not to end. -/
theorem isTerminated_cases (env : Env) (h : s₀.Reaches s later) :
    isTerminated env s = .ok true s ∧ s.Ended ∨ isTerminated env s = .ok false s ∧ s.Open := by
  obtain ⟨f₀, f, hf₀, hf, hfill⟩ := h.fills
  rw [← h.function] at hf
  cases ht : f.isTerminated s.frame.block with
  | true =>
    refine .inl ⟨isTerminated_run true hf ht, f, hf, ?_⟩
    rintro ⟨-, he⟩
    rw [Function.isTerminated_eq, he] at ht
    cases ht
  | false =>
    refine .inr ⟨isTerminated_run false hf ht, f, hf, hfill.inside, ?_⟩
    rw [Function.isTerminated_eq] at ht
    simpa using ht

theorem branchIfOpen_leads (h : s₀.Reaches s later) :
    Proceeds env s (branchIfOpen b) fun _ s' => s₀.Reaches s' later ∧ s'.Ended := by
  rcases isTerminated_cases env h with ⟨hrun, hended⟩ | ⟨hrun, hopen⟩
  · exact .read hrun (.pure ⟨h, hended⟩)
  · exact .read hrun (terminate_leads h hopen)

/-- The end of an arm, and what goes on in the block that has waited longest. -/
theorem arm_andThen {c : BlockId} {m : Gen β} (h : s₀.Reaches s (b :: later))
    (k : ∀ s', s₀.Reaches s' later → s'.Open → Proceeds env s' m Q) :
    Proceeds env s (do
      branchIfOpen c
      positionAt b
      m) Q := by
  refine .bind (branchIfOpen_leads h) fun _ s₁ _ h₁ => ?_
  have hmove := h₁.1.move h₁.2
  exact .bind (Q := fun _ s' => s₀.Reaches s' later ∧ s'.Open) (.of_ok rfl hmove) fun _ s₂ _ h₂ =>
    k s₂ h₂.1 h₂.2

end Steps

/-! ## Straight-line code -/

theorem Flows.of_adds {m : Gen α} (h : ∀ s, Proceeds env s m fun _ s' => s'.frame = s.frame ∧
      s.unit.module.Adds s'.unit.module (fun _ => False) Function.Complete) : Flows env α m :=
  fun s hs => (h s).mono (fun _ _ h => GenState.Reaches.of_adds hs h.1 h.2) fun _ _ h => h

/-- A step on the current function that ends no block. -/
theorem Flows.step {m : Gen α} (h : ∀ s, s.Open → ∃ a g, m env s = .ok a (s.mapFunction g) ∧
      (∀ f₀ f : Function, f₀.Fills s.frame.block f s.frame.block [] →
        f₀.Fills s.frame.block (g f) s.frame.block []) ∧
      ∀ f : Function, f.Unended s.frame.block → (g f).Unended s.frame.block) : Flows env α m := by
  intro s hs
  obtain ⟨a, g, hm, hfill, hu⟩ := h s hs
  obtain ⟨f, hf, hopen⟩ := hs
  refine .of_ok hm ⟨(GenState.Reaches.refl ⟨f, hf, hopen⟩).map hf fun f₀ => hfill f₀ f, ?_⟩
  exact ⟨g f, s.function?_mapFunction hf g, hu f hopen⟩

theorem linear_flows (env : Env) : Linear env (fun _ => True) (Flows env) where
  aside := fun hm => .of_adds fun s =>
    (hm s).mono (fun _ _ h => ⟨h.frame, .of_functions_eq h.functions⟩) fun _ _ h => h.1
  bind := fun hm hf s hs => (hm s hs).bind fun a s₁ ha h₁ =>
    (hf a ⟨s, s₁, trivial, ha⟩ s₁ h₁.2).mono (fun _ _ h₂ => ⟨h₁.1.trans h₂.1, h₂.2⟩)
      fun _ _ h => h
  emit := fun d => .step fun _ hs => ⟨_, _, emit_run env hs d, fun _ _ h => h.append d,
    fun _ h => (Function.unended_append d).mpr h⟩
  emitSlot := fun t => .step fun s _ => ⟨_, _, rfl, fun _ _ h => h.addSlot t,
    fun _ h => (Function.unended_addSlot t).mpr h⟩
  declare := fun name params ret attrs variadic span => .of_adds fun s => by
    refine .read rfl ?_
    split
    · next id m hm =>
      exact .of_ok rfl ⟨rfl, .declare hm fun _ => Function.complete_of_blocks_eq_empty⟩
    · exact .of_error rfl (by simp)

/-! ## Branches in expressions -/

theorem compareNullable_flows (lhs rhs : Value) (negated : Bool) (span : Span) :
    Flows env Value (compareNullable lhs rhs negated span) := by
  have h := linear_flows env
  refine h.seq (h.equalitySide _ _) fun l => h.seq (h.equalitySide _ _) fun r => ?_
  refine h.seq (h.emitIsUndefined _) fun lu => h.seq (h.emitIsUndefined _) fun ru => ?_
  refine h.seq (h.emitBinary _ _ _) fun both => h.seq (h.emitBinary _ _ _) fun either => ?_
  refine h.seq (h.aside .currentBlock) fun entry => ?_
  intro s hs
  refine appendBlock_andThen (.refl hs) hs fun payload s₁ h₁ o₁ => ?_
  refine appendBlock_andThen h₁ o₁ fun merge s₂ h₂ o₂ => jump_andThen h₂ o₂ fun s₃ h₃ o₃ => ?_
  refine (h.payloadValue _ _).andThen h₃ o₃ fun x s₄ h₄ o₄ => ?_
  refine (h.payloadValue _ _).andThen h₄ o₄ fun y s₅ h₅ o₅ => ?_
  refine (h.comparePlain _ _ _ _).andThen h₅ o₅ fun v s₆ h₆ o₆ => ?_
  refine (h.operand _ _).andThen h₆ o₆ fun equal s₇ h₇ o₇ => ?_
  refine (h.aside .currentBlock).andThen h₇ o₇ fun payloadEnd s₈ h₈ o₈ => ?_
  refine jump_andThen h₈ o₈ fun s₉ h₉ o₉ => Flows.last (h.seq (h.emit _) fun result => ?_) h₉ o₉
  split
  · exact h.seq (h.emitConst _) fun truth => h.map (h.emitBinary _ _ _) _
  · exact h.pure _

theorem shortCircuit_flows (op : BinaryOp) {left right : Node} (span : Span)
    (hl : Flows env Value (generate left)) (hr : Flows env Value (generate right)) :
    Flows env Value (shortCircuit generate op left right span) := by
  have h := linear_flows env
  refine h.seq (h.logicalOperand op hl _) fun l => h.seq (h.aside .currentBlock) fun b => ?_
  intro s hs
  refine appendBlock_andThen (.refl hs) hs fun rhsBlock s₁ h₁ o₁ => ?_
  refine appendBlock_andThen h₁ o₁ fun merge s₂ h₂ o₂ => ?_
  have joined (t : Terminator) : Proceeds env s₂ (do
      terminate t
      positionAt rhsBlock
      let rhs ← logicalOperand generate op right span
      let rhsEnd ← currentBlock
      terminate (.br merge)
      positionAt merge
      return Value.rvalue (← emit (.phi .i1 [(l, b), (rhs, rhsEnd)])) .boolean)
      fun _ s' => s.Reaches s' [] ∧ s'.Open := by
    refine jump_andThen h₂ o₂ fun s₃ h₃ o₃ => ?_
    refine (h.logicalOperand op hr _).andThen h₃ o₃ fun r s₄ h₄ o₄ => ?_
    refine (h.aside .currentBlock).andThen h₄ o₄ fun rhsEnd s₅ h₅ o₅ => ?_
    exact jump_andThen h₅ o₅ fun s₆ h₆ o₆ => Flows.last (h.map (h.emit _) _) h₆ o₆
  dsimp only
  split
  · exact joined _
  · exact joined _

theorem conditional_flows {n : Node} (hp : ∀ c, (.expression, c) ∈ n.form.parts →
    Flows env Value (generate c)) : Flows env Value (conditional generate n) := by
  have h := linear_flows env
  unfold conditional
  split
  · next cond thenExpr elseExpr hform =>
    have hc := hp cond (by simp [hform, Form.parts])
    have ht := hp thenExpr (by simp [hform, Form.parts])
    have he := hp elseExpr (by simp [hform, Form.parts])
    refine h.seq (h.aside (.nodeType n)) fun t => h.seq (h.condition hc) fun c => ?_
    intro s hs
    refine appendBlock_andThen (.refl hs) hs fun thenBlock s₁ h₁ o₁ => ?_
    refine appendBlock_andThen h₁ o₁ fun elseBlock s₂ h₂ o₂ => ?_
    refine appendBlock_andThen h₂ o₂ fun merge s₃ h₃ o₃ => jump_andThen h₃ o₃ fun s₄ h₄ o₄ => ?_
    refine (h.conditionalArm ht _ _).andThen h₄ o₄ fun a s₅ h₅ o₅ => ?_
    refine (h.aside .currentBlock).andThen h₅ o₅ fun thenEnd s₆ h₆ o₆ => ?_
    refine jump_andThen h₆ o₆ fun s₇ h₇ o₇ => ?_
    refine (h.conditionalArm he _ _).andThen h₇ o₇ fun b s₈ h₈ o₈ => ?_
    refine (h.aside .currentBlock).andThen h₈ o₈ fun elseEnd s₉ h₉ o₉ => ?_
    refine jump_andThen h₉ o₉ fun s₁₀ h₁₀ o₁₀ => Flows.last ?_ h₁₀ o₁₀
    split
    · refine h.seq (h.aside (.layout _ _)) fun lowered => h.seq (h.emit _) fun x => ?_
      exact h.aside (.valueOf _ _ _)
    · exact h.pure _
  · exact h.aside .wrongForm

/-! ## Functions -/

theorem modifyFrame_flows {g : Frame → Frame}
    (hg : ∀ f, (g f).function = f.function ∧ (g f).block = f.block) :
    Flows env Unit (modifyFrame g) := by
  intro s hs
  obtain ⟨hfn, hb⟩ := hg s.frame
  refine .of_ok rfl ⟨(GenState.Reaches.refl hs).withFrame hfn hb, ?_⟩
  obtain ⟨f, hf, hu⟩ := hs
  refine ⟨f, ?_, ?_⟩
  · show s.unit.module.function? (g s.frame).function = some f
    rw [hfn]
    exact hf
  · show f.Unended (g s.frame).block
    rw [hb]
    exact hu

theorem bindLocal_flows (name : String) (x : ValueId) (t : StaticType) (span : Span) :
    Flows env Unit (bindLocal name x t span) := by
  have h := linear_flows env
  refine h.seq (h.aside (.layout _ _)) fun lowered => h.seq (h.emitSlot _) fun slot => ?_
  exact h.seq (h.emitStore _ _) fun _ => modifyFrame_flows fun _ => ⟨rfl, rfl⟩

theorem bindParams_flows : ∀ (next : Nat) (params : List ResolvedParam),
    (∀ q ∈ params, ∀ d, q.default = some d → Flows env Value (generate d)) →
    Flows env Unit (bindParams generate next params)
  | _, [], _ => (linear_flows env).pure ()
  | next, q :: rest, hd => by
    have h := linear_flows env
    have further (k : Nat) : Flows env Unit (bindParams generate k rest) :=
      bindParams_flows k rest fun r hr => hd r (List.mem_cons_of_mem _ hr)
    unfold bindParams
    split
    · exact h.seq (bindLocal_flows _ _ _ _) fun _ => further _
    · split
      · next d hdef =>
        refine h.seq (h.generateOperand (hd q List.mem_cons_self d hdef) _) fun x => ?_
        exact h.seq (bindLocal_flows _ _ _ _) fun _ => further _
      · exact h.aside .internal

theorem finishBody_leads {s₀ s : GenState} (h : s₀.Reaches s []) :
    Proceeds env s finishBody fun _ s' => s₀.Reaches s' [] ∧ s'.Ended := by
  rcases isTerminated_cases env h with ⟨hrun, hended⟩ | ⟨hrun, hopen⟩
  · exact .read hrun (.pure ⟨h, hended⟩)
  · refine .read hrun (.read rfl ?_)
    split
    · exact terminate_leads h hopen
    · exact terminate_leads h hopen

/-- The body of a function, which ends. -/
theorem generateBody_leads {sp : Specialization} {body : Node} {span : Span}
    (hd : ∀ q ∈ sp.params, ∀ d, q.default = some d → Flows env Value (generate d))
    (hb : Advances env Value (generate body)) {s : GenState} (hs : s.Open) :
    Proceeds env s (generateBody generate sp body span) fun _ s' => s.Reaches s' [] ∧ s'.Ended := by
  have h := linear_flows env
  have bound (first : Nat) {s₁ : GenState} (h₁ : s.Reaches s₁ []) (o₁ : s₁.Open) :
      Proceeds env s₁ (do
        bindParams generate first sp.params
        let _ ← generate body
        finishBody) fun _ s' => s.Reaches s' [] ∧ s'.Ended := by
    refine (bindParams_flows first sp.params hd).andThen h₁ o₁ fun _ s₂ h₂ o₂ => ?_
    exact hb.andThen h₂ o₂ fun _ s₃ h₃ => finishBody_leads h₃
  unfold generateBody
  dsimp only
  split
  · split
    · exact .of_error rfl (by simp)
    · refine (h.aside (.descriptor _)).andThen (.refl hs) hs fun d s₁ h₁ o₁ => ?_
      refine Flows.andThen (modifyFrame_flows ?_) h₁ o₁ fun _ s₂ h₂ o₂ => bound _ h₂ o₂
      exact fun _ => ⟨rfl, rfl⟩
  · exact bound _ (.refl hs) hs

/-- The function with an empty first block. -/
theorem unended_started {symbol : String} {params : List Ty} {ret : Ty} {b : BlockId} :
    ((Function.shell symbol params ret .internal).addBlock "entry").Unended b ↔
      b = Function.entry := by
  rw [Function.unended_addBlock]
  simp [Function.Unended, Function.HasBlock, Function.shell, Function.nextBlock, Function.entry]

/-- A request for a specialization adds complete functions only. -/
theorem specialize_completes {sp : Specialization} {span : Span}
    (hb : ∀ decl body, env.program.function? sp.func = some decl → decl.body = some body →
      ∀ s : GenState, s.Open → Proceeds env s (generateBody generate sp body span)
        fun _ s' => s.Reaches s' [] ∧ s'.Ended) (s : GenState) :
    Proceeds env s (specialize generate sp span) fun _ s' => s'.frame = s.frame ∧
      s.unit.module.Adds s'.unit.module (fun _ => False) Function.Complete := by
  refine specialize_leads (fun _ _ he => he) ?_ ?_ ?_
  · intro _ params ret _ _ _ _
    refine .read rfl ?_
    split
    · next hm => exact .of_ok rfl ⟨rfl, .declare hm fun _ => Function.complete_of_blocks_eq_empty⟩
    · exact .of_error rfl (by simp)
  · intro _ _ _ _ _ _ _ _
    exact ⟨rfl, .refl _ _ _⟩
  · intro decl body params ret hdecl hbody _ _ _
    let s₁ := s.started sp (sp.symbol env.program) params ret
    have hfn := s.unit.module.function?_addFunction_next
      ((Function.shell (sp.symbol env.program) params ret .internal).addBlock "entry")
    have hopen : s₁.Open := ⟨_, hfn, unended_started.mpr rfl⟩
    refine (hb decl body hdecl hbody s₁ hopen).mono ?_ fun _ _ h => h
    rintro - s₂ ⟨hreach, f', hf', hended⟩
    obtain ⟨f₁, f₂, hf₁, hf₂, hfill⟩ := hreach.fills
    rw [hreach.function] at hf'
    cases hf₂.symm.trans hf'
    cases hf₁.symm.trans hfn
    have hcomplete := hfill.complete (fun d hd => unended_started.mp hd) hended
    refine ⟨rfl, ?_, ?_⟩
    · intro id f _ hf
      have hne := Module.ne_nextFunction hf
      exact hreach.others.kept hne ((s.unit.module.function?_addFunction_of_ne hne).trans hf)
    · intro id f _ hf
      by_cases hne : id = s.unit.module.nextFunction
      · subst hne
        cases hf₂.symm.trans hf
        exact .inr hcomplete
      · rcases hreach.others.added hne hf with hold | hnew
        · exact .inl ((s.unit.module.function?_addFunction_of_ne hne).symm.trans hold)
        · exact .inr hnew

/-! ## Nodes -/

/-- Generation that leaves the current block open behind expressions and declarations. -/
structure Completes (env : Env) (generate : Generate) : Prop where
  expression : ∀ {n : Node}, n.Arranged .expression → Flows env Value (generate n)
  statement : ∀ {n : Node}, n.Arranged .statement → Advances env Value (generate n)
  init : ∀ {n : Node}, n.Arranged .init → Flows env Value (generate n)

namespace Completes

variable {n : Node} {p : Position}

theorem specialize (h : Completes env generate) (hp : env.program.Arranged) {signature : Signature}
    {sp : Specialization} {I : GenState → Prop} (hr : sp.Requested env I signature) (span : Span)
    (s : GenState) :
    Proceeds env s (specialize generate sp span) fun _ s' => s'.frame = s.frame ∧
      s.unit.module.Adds s'.unit.module (fun _ => False) Function.Complete := by
  obtain ⟨st, decl, argCount, at', -, hdecl, hres⟩ := hr.resolves
  refine specialize_completes (fun decl' body hdecl' hbody s hs => ?_) s
  refine generateBody_leads (fun q hq d hd => ?_) (h.statement (hp.body hdecl' hbody)) hs
  obtain ⟨param, hparam, hdefault⟩ := hres.exists_default hq hd
  exact h.expression (hp.default hdecl hparam hdefault)

theorem expressive (h : Completes env generate) (hp : env.program.Arranged) :
    Expressive env (fun _ => True) generate (Node.Arranged .expression) (Flows env)
      (Flows env Value) where
  toLinear := linear_flows env
  toConsumes := (linear_flows env).consumes
  node := h.expression
  part := fun hn hc => hn.part hc
  compareNullable := compareNullable_flows
  shortCircuit := fun op _ _ span hl hr =>
    shortCircuit_flows op span (h.expression hl) (h.expression hr)
  conditional := fun hn => conditional_flows fun _ hc => h.expression (hn.part hc)
  specialize := fun _ span _ _ hr => .of_adds (h.specialize hp hr span)

/-! ### Statements -/

theorem variableDeclaration (h : Completes env generate) (hn : n.Arranged p) :
    Flows env Value (variableDeclaration generate n) := by
  have hl := linear_flows env
  unfold Gen.variableDeclaration
  split
  · next name init mutable hform =>
    refine hl.seq (hl.aside (.nodeType n)) fun t => ?_
    dsimp only
    split
    · next init =>
      have hi : init.Arranged .expression := hn.part (by simp [hform, Form.parts])
      refine hl.seq (hl.generateOperand (h.expression hi) _) fun x => ?_
      split
      · exact hl.map (bindLocal_flows _ _ _ _) _
      · exact hl.seq (modifyFrame_flows fun _ => ⟨rfl, rfl⟩) fun _ => hl.pure _
    · refine hl.seq (hl.aside (.layout _ _)) fun lowered => ?_
      split
      · exact hl.seq (hl.emitConst _) fun x => hl.map (bindLocal_flows _ _ _ _) _
      · exact hl.map (hl.aside .unsupported) _
  · exact hl.aside .wrongForm

theorem expressionStatement (h : Completes env generate) (hn : n.Arranged p) :
    Flows env Value (expressionStatement generate n) := by
  have hl := linear_flows env
  unfold Gen.expressionStatement
  split
  · next e hform => exact hl.map (h.expression (hn.part (by simp [hform, Form.parts]))) _
  · exact hl.aside .wrongForm

/-- A list of statements starts in an open block or opens one that nothing leads to. -/
theorem statements (h : Completes env generate) : ∀ {body : List Node} {s₀ s : GenState},
    (∀ c ∈ body, c.Arranged .item) → s₀.Reaches s [] →
    Proceeds env s (statements generate body) fun _ s' => s₀.Reaches s' []
  | [], _, _, _, hs => .pure hs
  | c :: rest, s₀, s, hb, hs => by
    have hc : c.Arranged .statement :=
      ⟨(hb c List.mem_cons_self).takes, fun _ _ => (hb c List.mem_cons_self).part⟩
    have opened : Proceeds env s openBlock fun _ s' => s₀.Reaches s' [] ∧ s'.Open := by
      rcases isTerminated_cases env hs with ⟨hrun, hended⟩ | ⟨hrun, hopen⟩
      · refine .read hrun (.bind (appendBlock_leads hs) fun b s₁ _ h₁ => ?_)
        exact .of_ok rfl (h₁.1.move (h₁.2.2 hended))
      · exact .read hrun (.pure ⟨hs, hopen⟩)
    refine .bind opened fun _ s₁ _ h₁ => ?_
    refine (h.statement hc).andThen h₁.1 h₁.2 fun _ s₂ h₂ => ?_
    exact h.statements (fun c hm => hb c (List.mem_cons_of_mem _ hm)) h₂

theorem block (h : Completes env generate) (hn : n.Arranged p) :
    Advances env Value (block generate n) := by
  have hl := linear_flows env
  unfold Gen.block
  split
  · next body hform =>
    intro s hs
    refine (hl.aside .frame).andThen (.refl hs) hs fun f s₁ h₁ _ => ?_
    refine .bind (h.statements (fun c hm => ?_) h₁) fun _ s₂ _ h₂ => ?_
    · exact hn.part (by simp [hform, Form.parts, hm])
    · exact .of_ok rfl (h₂.withFrame rfl rfl)
  · exact (hl.aside .wrongForm).advances

theorem ifElse (h : Completes env generate) (hn : n.Arranged p) :
    Flows env Value (ifElse generate n) := by
  have hl := linear_flows env
  unfold Gen.ifElse
  split
  · next cond thenBranch elseBranch hform =>
    have hc : cond.Arranged .expression := hn.part (by simp [hform, Form.parts])
    have ht : thenBranch.Arranged .statement := hn.part (by simp [hform, Form.parts])
    refine hl.seq (hl.condition (h.expression hc)) fun c => ?_
    intro s hs
    refine appendBlock_andThen (.refl hs) hs fun thenBlock s₁ h₁ o₁ => ?_
    dsimp only
    split
    · refine appendBlock_andThen h₁ o₁ fun merge s₂ h₂ o₂ => jump_andThen h₂ o₂ fun s₃ h₃ o₃ => ?_
      refine (h.statement ht).andThen h₃ o₃ fun _ s₄ h₄ => ?_
      exact arm_andThen h₄ fun s₅ h₅ o₅ => .pure ⟨h₅, o₅⟩
    · next elseBranch =>
      have he : elseBranch.Arranged .statement := hn.part (by simp [hform, Form.parts])
      refine appendBlock_andThen h₁ o₁ fun elseBlock s₂ h₂ o₂ => ?_
      refine appendBlock_andThen h₂ o₂ fun merge s₃ h₃ o₃ => jump_andThen h₃ o₃ fun s₄ h₄ o₄ => ?_
      refine (h.statement ht).andThen h₄ o₄ fun _ s₅ h₅ => arm_andThen h₅ fun s₆ h₆ o₆ => ?_
      refine (h.statement he).andThen h₆ o₆ fun _ s₇ h₇ => ?_
      exact arm_andThen h₇ fun s₈ h₈ o₈ => .pure ⟨h₈, o₈⟩
  · exact hl.aside .wrongForm

/-- The body of a loop, and what goes on in the block that has waited longest. -/
theorem loopBody_andThen (h : Completes env generate) {body : Node}
    (hb : body.Arranged .statement) {s₀ s : GenState} {b next : BlockId} {later : List BlockId}
    {target : LoopTarget} {m : Gen β} {Q : β → GenState → Prop} (hs : s₀.Reaches s (b :: later))
    (ho : s.Open) (k : ∀ s', s₀.Reaches s' later → s'.Open → Proceeds env s' m Q) :
    Proceeds env s (do
      loopBody generate body target next
      positionAt b
      m) Q := by
  have ended : Proceeds env s (loopBody generate body target next) fun _ s' =>
      s₀.Reaches s' (b :: later) ∧ s'.Ended := by
    have pushed : Flows env Unit (pushLoop target) := modifyFrame_flows fun _ => ⟨rfl, rfl⟩
    refine pushed.andThen hs ho fun _ s₁ h₁ o₁ => ?_
    refine (h.statement hb).andThen h₁ o₁ fun _ s₂ h₂ => ?_
    refine .bind (Q := fun _ s' => s₀.Reaches s' (b :: later)) (.of_ok rfl (h₂.withFrame rfl rfl)) ?_
    exact fun _ s₃ _ h₃ => branchIfOpen_leads h₃
  refine .bind ended fun _ s₁ _ h₁ => ?_
  exact .bind (Q := fun _ s' => s₀.Reaches s' later ∧ s'.Open) (.of_ok rfl (h₁.1.move h₁.2))
    fun _ s₂ _ h₂ => k s₂ h₂.1 h₂.2

theorem whileLoop (h : Completes env generate) (hn : n.Arranged p) :
    Flows env Value (whileLoop generate n) := by
  have hl := linear_flows env
  unfold Gen.whileLoop
  split
  · next cond body hform =>
    have hc : cond.Arranged .expression := hn.part (by simp [hform, Form.parts])
    have hb : body.Arranged .statement := hn.part (by simp [hform, Form.parts])
    intro s hs
    refine appendBlock_andThen (.refl hs) hs fun header s₁ h₁ o₁ => ?_
    refine appendBlock_andThen h₁ o₁ fun bodyBlock s₂ h₂ o₂ => ?_
    refine appendBlock_andThen h₂ o₂ fun exit s₃ h₃ o₃ => jump_andThen h₃ o₃ fun s₄ h₄ o₄ => ?_
    refine (hl.condition (h.expression hc)).andThen h₄ o₄ fun c s₅ h₅ o₅ => ?_
    refine jump_andThen h₅ o₅ fun s₆ h₆ o₆ => h.loopBody_andThen hb h₆ o₆ fun s₇ h₇ o₇ => ?_
    exact .pure ⟨h₇, o₇⟩
  · exact hl.aside .wrongForm

theorem doWhile (h : Completes env generate) (hn : n.Arranged p) :
    Flows env Value (doWhile generate n) := by
  have hl := linear_flows env
  unfold Gen.doWhile
  split
  · next body cond hform =>
    have hc : cond.Arranged .expression := hn.part (by simp [hform, Form.parts])
    have hb : body.Arranged .statement := hn.part (by simp [hform, Form.parts])
    intro s hs
    refine appendBlock_andThen (.refl hs) hs fun bodyBlock s₁ h₁ o₁ => ?_
    refine appendBlock_andThen h₁ o₁ fun latch s₂ h₂ o₂ => ?_
    refine appendBlock_andThen h₂ o₂ fun exit s₃ h₃ o₃ => jump_andThen h₃ o₃ fun s₄ h₄ o₄ => ?_
    refine h.loopBody_andThen hb h₄ o₄ fun s₅ h₅ o₅ => ?_
    refine (hl.condition (h.expression hc)).andThen h₅ o₅ fun c s₆ h₆ o₆ => ?_
    exact jump_andThen h₆ o₆ fun s₇ h₇ o₇ => .pure ⟨h₇, o₇⟩
  · exact hl.aside .wrongForm

theorem generateOptional {part : Option Node}
    (hg : ∀ c, part = some c → Flows env Value (generate c)) :
    Flows env Unit (generateOptional generate part) := by
  cases part with
  | none => exact (linear_flows env).pure ()
  | some c => exact (linear_flows env).map (hg c rfl) _

theorem forLoop (h : Completes env generate) (hn : n.Arranged p) :
    Flows env Value (forLoop generate n) := by
  have hl := linear_flows env
  unfold Gen.forLoop
  split
  · next init cond update body hform =>
    have hb : body.Arranged .statement := hn.part (by simp [hform, Form.parts])
    have hi : ∀ c, init = some c → Flows env Value (generate c) := by
      rintro c rfl
      exact h.init (hn.part (by simp [hform, Form.parts]))
    have hu : ∀ c, update = some c → Flows env Value (generate c) := by
      rintro c rfl
      exact h.expression (hn.part (by simp [hform, Form.parts]))
    refine hl.seq (hl.aside .frame) fun f => hl.seq (generateOptional hi) fun _ => ?_
    intro s hs
    refine appendBlock_andThen (.refl hs) hs fun header s₁ h₁ o₁ => ?_
    refine appendBlock_andThen h₁ o₁ fun bodyBlock s₂ h₂ o₂ => ?_
    refine appendBlock_andThen h₂ o₂ fun step s₃ h₃ o₃ => ?_
    refine appendBlock_andThen h₃ o₃ fun exit s₄ h₄ o₄ => jump_andThen h₄ o₄ fun s₅ h₅ o₅ => ?_
    have rest (t : Terminator) {s₆ : GenState} (h₆ : s.Reaches s₆ [bodyBlock, step, exit])
        (o₆ : s₆.Open) : Proceeds env s₆ (do
          terminate t
          positionAt bodyBlock
          loopBody generate body ⟨exit, step⟩ step
          positionAt step
          Gen.generateOptional generate update
          terminate (.br header)
          positionAt exit
          setScope f.scope
          return Value.unit) fun _ s' => s.Reaches s' [] ∧ s'.Open := by
      refine jump_andThen h₆ o₆ fun s₇ h₇ o₇ => h.loopBody_andThen hb h₇ o₇ fun s₈ h₈ o₈ => ?_
      refine (generateOptional hu).andThen h₈ o₈ fun _ s₉ h₉ o₉ => ?_
      refine jump_andThen h₉ o₉ fun s₁₀ h₁₀ o₁₀ => ?_
      refine Flows.last (hl.seq (modifyFrame_flows fun _ => ⟨rfl, rfl⟩) fun _ => hl.pure _) h₁₀ o₁₀
    dsimp only
    split
    · next c =>
      have hc : c.Arranged .expression := hn.part (by simp [hform, Form.parts])
      refine (hl.condition (h.expression hc)).andThen h₅ o₅ fun x s₆ h₆ o₆ => ?_
      exact rest _ h₆ o₆
    · exact rest _ h₅ o₅
  · exact hl.aside .wrongForm

theorem returnStatement (h : Completes env generate) (hn : n.Arranged p) :
    Advances env Value (returnStatement generate n) := by
  have hl := linear_flows env
  unfold Gen.returnStatement
  split
  · next value hform =>
    intro s hs
    have ended {s₁ : GenState} (t : Terminator) (h₁ : s.Reaches s₁ []) (o₁ : s₁.Open) :
        Proceeds env s₁ (do
          terminate t
          return Value.unit) fun _ s' => s.Reaches s' [] :=
      .bind (terminate_leads h₁ o₁) fun _ s₂ _ h₂ => .pure h₂.1
    refine (hl.aside .frame).andThen (.refl hs) hs fun f s₁ h₁ o₁ => ?_
    dsimp only
    split
    · next v =>
      have hv := h.expression (hn.part (q := .expression) (c := v) (by simp [hform, Form.parts]))
      split
      · exact hv.andThen h₁ o₁ fun _ s₂ h₂ o₂ => ended _ h₂ o₂
      · exact (hl.generateOperand hv _).andThen h₁ o₁ fun x s₂ h₂ o₂ => ended _ h₂ o₂
    · split
      · exact ended _ h₁ o₁
      · exact .of_error rfl (by simp)
  · exact (hl.aside .wrongForm).advances

theorem breakLoop : Advances env Value (breakLoop n) := by
  intro s hs
  refine .read rfl ?_
  split
  · exact .bind (terminate_leads (.refl hs) hs) fun _ s₁ _ h₁ => .pure h₁.1
  · exact .of_error rfl (by simp)

theorem continueLoop : Advances env Value (continueLoop n) := by
  intro s hs
  refine .read rfl ?_
  split
  · exact .bind (terminate_leads (.refl hs) hs) fun _ s₁ _ h₁ => .pure h₁.1
  · exact .of_error rfl (by simp)

theorem standard_statement (h : Completes env generate) (hn : n.Arranged p) {kind : SyntaxKind}
    (hk : kind.isExpression = false) : Advances env Value (standard generate kind n) := by
  have hl := linear_flows env
  cases kind with
  | variableDeclaration => exact (h.variableDeclaration hn).advances
  | expressionStatement => exact (h.expressionStatement hn).advances
  | block => exact h.block hn
  | ifElse => exact (h.ifElse hn).advances
  | whileLoop => exact (h.whileLoop hn).advances
  | doWhile => exact (h.doWhile hn).advances
  | forLoop => exact (h.forLoop hn).advances
  | ret => exact h.returnStatement hn
  | breakLoop => exact breakLoop
  | continueLoop => exact continueLoop
  | empty => exact (hl.pure _).advances
  | forIn | forOf | switch | tryCatch | throw | labeled => exact (hl.aside .fail).advances
  | _ => cases hk

end Completes

/-- A node is handed to the generator made for its kind, or rejected. -/
theorem generate_succ_leads (hr : env.registry.IsDiagonal) {depth : Nat} {n : Node} {s : GenState}
    {Q : Value → GenState → Prop}
    (h : Proceeds env s (standard (Gen.generate depth) n.kind n) Q) :
    Proceeds env s (Gen.generate (depth + 1) n) Q := by
  refine .read rfl ?_
  split
  · next kind hk =>
    rw [hr _ _ hk]
    exact h
  · exact .of_error rfl (by simp)

/-- Every node of an arranged tree, up to every depth. -/
theorem generate_completes (hr : env.registry.IsDiagonal) (hp : env.program.Arranged) (depth : Nat) :
    Completes env (Gen.generate depth) := by
  have hl := linear_flows env
  induction depth with
  | zero =>
    have out (n : Node) : Flows env Value (Gen.generate 0 n) := hl.aside (.throw (by simp))
    exact ⟨fun _ => out _, fun _ => (out _).advances, fun _ => out _⟩
  | succ depth ih =>
    have flows {n : Node} (hs : Flows env Value (standard (Gen.generate depth) n.kind n)) :
        Flows env Value (Gen.generate (depth + 1) n) :=
      fun s ho => generate_succ_leads hr (hs s ho)
    have advances {n : Node} (hs : Advances env Value (standard (Gen.generate depth) n.kind n)) :
        Advances env Value (Gen.generate (depth + 1) n) :=
      fun s ho => generate_succ_leads hr (hs s ho)
    have expression {n : Node} (hn : n.Arranged .expression) :
        Flows env Value (Gen.generate (depth + 1) n) :=
      flows ((ih.expressive hp).standard hn hn.takes)
    refine ⟨expression, fun hn => ?_, fun hn => ?_⟩
    · exact advances (ih.standard_statement hn (by simpa [Position.takes] using hn.takes))
    · rcases hn.expression_or_declaration with he | hd
      · exact expression he
      · refine flows ?_
        rw [hd]
        exact ih.variableDeclaration hn

end Gen

/-! ## Programs -/

/-- Every function of the module is complete, or it is one of `m` with the blocks that it had. -/
def Ssa.Module.Completed (m m' : Module) : Prop :=
  ∀ {id f}, m'.function? id = some f →
    f.Complete ∨ ∃ g, m.function? id = some g ∧ f.blocks = g.blocks

namespace Compiler

variable {env : Env} {s : GenState}

/-- An entry point is compiled without meeting a block that ends, and adds complete functions. -/
theorem entry_completes (hr : env.registry.IsDiagonal) (hp : env.program.Arranged) (func : FuncId) :
    Gen.Proceeds env s (entry func) fun _ s' => s.unit.module.Completed s'.unit.module := by
  refine entry_leads (fun _ _ he => he) fun decl sp hsp => ?_
  have hrequest := hsp.requested (I := fun _ => True) (s := s) trivial
  refine ((Gen.generate_completes hr hp _).specialize hp hrequest _ s).mono ?_ fun _ _ h => h
  rintro id s' ⟨-, hadds⟩ id' f hf
  have old {g : Function} (hg : s'.unit.module.function? id' = some g) (hb : f.blocks = g.blocks) :
      f.Complete ∨ ∃ g, s.unit.module.function? id' = some g ∧ f.blocks = g.blocks := by
    rcases hadds.added not_false hg with hold | hnew
    · exact .inr ⟨g, hold, hb⟩
    · exact .inl (hnew.of_blocks_eq hb)
  rw [Module.function?_addExport] at hf
  split at hf
  · obtain ⟨g, hg, rfl⟩ := Option.map_eq_some_iff.mp hf
    exact old hg rfl
  · exact old hf rfl

theorem compileEntry_completes {c : Compiler} (hr : c.env.registry.IsDiagonal)
    (hp : c.env.program.Arranged) (func : FuncId) :
    (c.compileEntry func).1 ≠ .error .misplaced ∧
      ∀ id, (c.compileEntry func).1 = .ok id →
        c.unit.module.Completed (c.compileEntry func).2.unit.module := by
  have h := entry_completes (s := { unit := c.unit, frame := .outside }) hr hp func
  unfold compileEntry
  split
  · next id s hrun => exact ⟨by simp, fun _ _ => h.ok hrun⟩
  · next e s hrun =>
    have he : e ≠ .misplaced := h.error hrun
    exact ⟨by simpa using he, by simp⟩

theorem compileEntry_env (c : Compiler) (func : FuncId) : (c.compileEntry func).2.env = c.env := by
  unfold compileEntry
  split <;> rfl

theorem compileAll_completes {c : Compiler} (hr : c.env.registry.IsDiagonal)
    (hp : c.env.program.Arranged)
    (hc : ∀ id f, c.unit.module.function? id = some f → f.Complete) (funcs : List FuncId) :
    c.compileAll funcs ≠ .error .misplaced ∧ ∀ c', c.compileAll funcs = .ok c' →
      ∀ id f, c'.unit.module.function? id = some f → f.Complete := by
  induction funcs generalizing c with
  | nil =>
    refine ⟨by simp [compileAll], ?_⟩
    rintro c' ⟨⟩
    exact hc
  | cons func rest ih =>
    unfold compileAll
    split
    · exact ⟨by simp, by simp⟩
    · split
      · exact ih hr hp hc
      · have hentry := compileEntry_completes hr hp func
        have henv := c.compileEntry_env func
        split
        · next id c₁ hrun =>
          rw [hrun] at hentry henv
          refine ih (by rw [henv]; exact hr) (by rw [henv]; exact hp) fun id' f hf => ?_
          rcases hentry.2 id rfl hf with h | ⟨g, hg, hb⟩
          · exact h
          · exact (hc id' g hg).of_blocks_eq hb
        · next e c₁ hrun =>
          rw [hrun] at hentry
          exact ⟨by simpa using hentry.1, by simp⟩

end Compiler

theorem Ssa.Module.function?_of_mem_definitions {m : Module} {id : FunctionId} {f : Function}
    (h : (id, f) ∈ m.definitions) : m.function? id = some f := by
  obtain ⟨⟨g, i⟩, hg, he⟩ := List.mem_map.mp (List.mem_filter.mp h).1
  cases he
  simpa [function?] using List.mem_zipIdx_iff_getElem?.mp hg

/-- Whatever the outcome, no instruction goes to a block that already ends and no block ends twice;
and in a compiled program every block of every definition ends. -/
theorem compile_completes {p : Program} (hp : p.Arranged) (config : Config) :
    compile p config ≠ .error .misplaced ∧
      ∀ out, compile p config = .ok out → ∀ id f, (id, f) ∈ out.module.definitions →
        ∀ block ∈ f.blocks, block.terminator.isSome = true := by
  have h := Compiler.compileAll_completes (c := Compiler.new p config .standard)
    Registry.isDiagonal_standard hp (by intro id f hf; cases hf) p.entryPoints
  unfold compile
  cases hc : (Compiler.new p config .standard).compileAll p.entryPoints with
  | error e =>
    rw [hc] at h
    refine ⟨fun he => h.1 ?_, ?_⟩
    · cases he
      rfl
    · rintro out ⟨⟩
  | ok c =>
    refine ⟨?_, ?_⟩
    · rintro ⟨⟩
    · rintro out ⟨⟩ id f hf block hb
      exact (h.2 c hc id f (Module.function?_of_mem_definitions hf)).isSome_terminator hb

/-- A program with jumps in front of other statements and a declaration as the branch of an `if`:
`function main(): int { while (true) { if (true) let x = 1; break; continue; } return 1; }`. -/
def jumpingProgram : Program :=
  let node (t : StaticType) (form : Form Node) : Node := .mk ⟨0⟩ .dummy t form
  let truth : Node := node .boolean (.booleanLiteral true)
  let one : Node := node .int (.numericLiteral "1")
  let declaration : Node := node .int (.variableDeclaration "x" (some one) false)
  let loop : Node := node .void (.whileLoop truth (node .void (.block [
    node .void (.ifElse truth declaration none), node .void .breakLoop, node .void .continueLoop])))
  { functions := #[{
      name := "main"
      ret := .int
      body := some (node .void (.block [loop, node .void (.ret (some one))])) }]
    entryPoints := [⟨0⟩] }

/-- Its function has seven blocks: the entry, three of the loop, two of the branch, and one for the
statement behind the `break`. -/
theorem compile_jumpingProgram :
    ((compile jumpingProgram {}).map fun out =>
      out.module.definitions.map fun d => d.2.blocks.size).toOption = some [7] := by
  decide +kernel

theorem compile_completes_jumping : ∃ out id f, compile jumpingProgram {} = .ok out ∧
    (id, f) ∈ out.module.definitions ∧ f.blocks.size = 7 ∧
    ∀ block ∈ f.blocks, block.terminator.isSome = true := by
  have hp : jumpingProgram.Arranged :=
    Program.arranged_of_arrangedWithin 6 (by decide +kernel)
  obtain ⟨out, hc, hsizes⟩ := except_map_ok compile_jumpingProgram
  obtain ⟨⟨id, f⟩, hd, hf⟩ := List.map_eq_singleton_iff.mp hsizes
  have hmem : (id, f) ∈ out.module.definitions := by simp [hd]
  exact ⟨out, id, f, hc, hmem, hf, (compile_completes hp {}).2 out hc id f hmem⟩

end TypedLowering
