import TypedLowering.Proofs.Lowering.Persistence

/-!
What stays of the function under construction, whatever trees it is generated from. Its values, its
stack slots and the instructions of its blocks stay where they are. An expression that yields an
operand keeps the names in scope besides, and ends in a block of the function: where it contains a
node that is no expression, this has no operand, and generation fails or yields nothing.

Main statements:

- `enlarges_generate`: no node takes anything away from the function;
- `generate_abides`: a node that yields an operand is generated within its function and its scope.
-/
namespace TypedLowering
set_option autoImplicit false
open Ssa Ssa.Function

/-! ## Functions -/

/-- `g` has the values, stack slots and instructions of `f`, each at its place. -/
structure Ssa.Function.Within (f g : Function) : Prop where
  params : g.params = f.params
  values : ∀ {v d}, f.definition? v = some d → g.definition? v = some d
  size : f.blocks.size ≤ g.blocks.size
  slots : f.slots <+: g.slots
  body : ∀ b, f.body b <+: g.body b

namespace Ssa.Function

variable {f g k : Function} {b : BlockId}

namespace Within

theorem refl (f : Function) : f.Within f :=
  ⟨rfl, id, Nat.le_refl _, List.prefix_refl _, fun _ => List.prefix_refl _⟩

theorem trans (h : f.Within g) (h' : g.Within k) : f.Within k where
  params := h'.params.trans h.params
  values := fun hd => h'.values (h.values hd)
  size := Nat.le_trans h.size h'.size
  slots := h.slots.trans h'.slots
  body := fun b => (h.body b).trans (h'.body b)

theorem hasBlock (h : f.Within g) (hb : f.HasBlock b) : g.HasBlock b :=
  Nat.lt_of_lt_of_le hb h.size

theorem size_values (h : f.Within g) : f.values.size ≤ g.values.size := size_values_le h.values

end Within

theorem body_append_prefix (hf : f.Shaped) (b : BlockId) (d : Definition) (c : BlockId) :
    f.body c <+: (f.append b d).body c := by
  by_cases hb : f.HasBlock b
  · rw [body_append d hf hb]
    split
    · next h => exact h ▸ List.prefix_append _ _
    · exact List.prefix_refl _
  · have hsame : (f.append b d).blocks[c.index]? = f.blocks[c.index]? := by
      rw [getElem?_blocks_append]
      split
      · next h => rw [← h, Array.getElem?_eq_none (Nat.le_of_not_lt hb), Option.map_none]
      · rfl
    simp only [body, hsame, entryAllocas_append, List.prefix_refl]

theorem within_append (hf : f.Shaped) (b : BlockId) (d : Definition) : f.Within (f.append b d) where
  params := rfl
  values := definition?_of_push (values_append f b d)
  size := by simp
  slots := by simp only [slots_append d hf, List.prefix_refl]
  body := body_append_prefix hf b d

theorem within_addSlot (hf : f.Shaped) (t : Ty) : f.Within (f.addSlot t) where
  params := rfl
  values := definition?_of_push (values_addSlot f t)
  size := by simp
  slots := by
    rw [slots_addSlot t hf]
    exact List.prefix_append _ _
  body := fun c => by simp only [body_addSlot t hf, List.prefix_refl]

theorem within_addBlock (hf : f.Shaped) (word : String) : f.Within (f.addBlock word) where
  params := rfl
  values := id
  size := by simp
  slots := by simp only [slots_addBlock word hf, List.prefix_refl]
  body := fun c => by simp only [body_addBlock, List.prefix_refl]

theorem within_terminate (b : BlockId) (t : Terminator) : f.Within (f.terminate b t) where
  params := rfl
  values := id
  size := by simp
  slots := by simp only [slots_terminate, List.prefix_refl]
  body := fun c => by simp only [body_terminate, List.prefix_refl]

end Ssa.Function

/-! ## What is generated adds to the function -/

/-- From one state to another, the current function has been added to. -/
structure GenState.Enlarged (s s' : GenState) : Prop where
  function : s'.frame.function = s.frame.function
  within : ∀ {f}, s.unit.module.function? s.frame.function = some f →
    ∃ g, s'.unit.module.function? s.frame.function = some g ∧ (f.Shaped → g.Shaped ∧ f.Within g)

namespace GenState.Enlarged

variable {s s' s'' : GenState}

theorem trans (h : s.Enlarged s') (h' : s'.Enlarged s'') : s.Enlarged s'' where
  function := h'.function.trans h.function
  within := by
    intro f hf
    obtain ⟨g, hg, hfg⟩ := h.within hf
    rw [← h.function] at hg
    obtain ⟨k, hk, hgk⟩ := h'.within hg
    rw [h.function] at hk
    exact ⟨k, hk, fun hs => ⟨(hgk (hfg hs).1).1, (hfg hs).2.trans (hgk (hfg hs).1).2⟩⟩

/-- A step that leaves the functions that are there alone. -/
theorem of_keeps (hf : s'.frame.function = s.frame.function)
    (hk : s.unit.Keeps s'.unit fun _ => False) : s.Enlarged s' :=
  ⟨hf, fun {f} hf => ⟨f, hk.functions.kept not_false hf, fun hs => ⟨hs, .refl f⟩⟩⟩

/-- A step on the current function. -/
theorem mapFunction (s : GenState) {t : Function → Function}
    (ht : ∀ {f : Function}, f.Shaped → (t f).Shaped ∧ f.Within (t f)) :
    s.Enlarged (s.mapFunction t) :=
  ⟨rfl, fun {f} hf => ⟨t f, s.function?_mapFunction hf t, ht⟩⟩

end GenState.Enlarged

namespace Gen

variable {α β : Type} {env : Env} {generate : Generate} {later : List BlockId}

/-- Code that adds to the current function and leaves the frame alone. -/
def InPlace (env : Env) (α : Type) (m : Gen α) : Prop :=
  ∀ s, Leads env s m (fun _ s' => s.Enlarged s' ∧ s'.frame = s.frame) fun _ _ => True

namespace InPlace

theorem of_keeps {m : Gen α}
    (h : ∀ s, Leads env s m (fun _ s' => s.unit.Keeps s'.unit (fun _ => False) ∧
      s'.frame = s.frame) fun _ _ => True) : InPlace env α m := fun s =>
  (h s).mono (fun _ _ h => ⟨.of_keeps (congrArg Frame.function h.2) h.1, h.2⟩) fun _ _ h => h

theorem aside {m : Gen α} (hm : Aside env m) : InPlace env α m := of_keeps fun s =>
  (hm s).mono (fun _ _ h => ⟨.of_alike h, h.frame⟩) fun _ _ _ => trivial

theorem emit (d : Definition) : InPlace env ValueId (emit d) := fun s =>
  .emit (Q := fun _ s' => s.Enlarged s' ∧ s'.frame = s.frame)
    ⟨.mapFunction s fun hf => ⟨shaped_append d hf, within_append hf _ d⟩, rfl⟩ trivial

theorem emitSlot (t : Ty) : InPlace env ValueId (emitSlot t) := fun s =>
  .of_ok rfl ⟨.mapFunction s fun hf => ⟨shaped_addSlot t hf, within_addSlot hf t⟩, rfl⟩

theorem declare (name : String) (params : List Ty) (ret : Ty) (attrs : Attributes) (variadic : Bool)
    (span : Span) : InPlace env FunctionId (declareExternal name params ret attrs variadic span) :=
  of_keeps fun _ =>
    (Persists.declareExternal_keeps name params ret attrs variadic span _).mono (fun _ _ h => h)
      fun _ _ _ => trivial

theorem terminate (t : Terminator) : InPlace env Unit (terminate t) := fun s =>
  .terminate (Q := fun _ s' => s.Enlarged s' ∧ s'.frame = s.frame)
    ⟨.mapFunction s fun hf => ⟨shaped_terminate t hf, within_terminate _ t⟩, rfl⟩ trivial

theorem appendBlock (word : String) : InPlace env BlockId (appendBlock word) := fun s =>
  .of_ok rfl ⟨.mapFunction s fun hf => ⟨shaped_addBlock word hf, within_addBlock hf word⟩, rfl⟩

theorem specialize {sp : Specialization} {span : Span}
    (hb : ∀ decl body, env.program.function? sp.func = some decl → decl.body = some body →
      Persists env Unit (generateBody generate sp body span)) :
    InPlace env FunctionId (specialize generate sp span) :=
  of_keeps fun s => (Persists.specialize_keeps hb s).mono (fun _ _ h => h) fun _ _ _ => trivial

end InPlace

/-- Code that adds to the current function and keeps what does not belong to it. -/
def Enlarges (env : Env) (α : Type) (m : Gen α) : Prop :=
  Persists env α m ∧ ∀ s, Leads env s m (fun _ => s.Enlarged) fun _ _ => True

namespace Enlarges

theorem of_inPlace {m : Gen α} (hm : Persists env α m) (h : InPlace env α m) : Enlarges env α m :=
  ⟨hm, fun s => (h s).mono (fun _ _ h => h.1) fun _ _ h => h⟩

theorem pervasive : Pervasive env (fun _ => True) (fun _ => True) (Enlarges env) where
  aside := fun hm => of_inPlace (.aside hm) (.aside hm)
  bind := fun hm hf => ⟨.bind hm.1 fun a ⟨s, s', ha⟩ => (hf a ⟨s, s', trivial, ha⟩).1, fun s =>
    (hm.2 s).bind fun a s₁ ha h₁ =>
      ((hf a ⟨s, s₁, trivial, ha⟩).2 s₁).mono (fun _ _ h₂ => h₁.trans h₂) fun _ _ h => h⟩
  emit := fun d => of_inPlace (Persists.pervasive.emit d) (.emit d)
  emitSlot := fun t => of_inPlace (Persists.pervasive.emitSlot t) (.emitSlot t)
  declare := fun name params ret attrs variadic span =>
    of_inPlace (Persists.pervasive.declare name params ret attrs variadic span)
      (.declare name params ret attrs variadic span)
  terminate := fun t => of_inPlace (Persists.pervasive.terminate t) (.terminate t)
  appendBlock := fun word => of_inPlace (Persists.pervasive.appendBlock word) (.appendBlock word)
  modifyFrame := fun g hg => ⟨Persists.pervasive.modifyFrame g hg, fun s =>
    .of_ok rfl (.of_keeps (hg s.frame).1 (.refl _ _))⟩
  specialize := fun span ht hreq hb => by
    have hbody := fun decl body hdecl hbody => (hb decl body hdecl hbody).1
    exact of_inPlace (Persists.pervasive.specialize span ht hreq hbody) (.specialize hbody)

end Enlarges

/-- No node takes anything away from the function that it is generated for. -/
theorem enlarges_generate (depth : Nat) (n : Node) : Enlarges env Value (Gen.generate depth n) :=
  Enlarges.pervasive.generateNode env.program.appliesAt_trivial depth n
    (.of_forall (fun _ _ _ _ _ => trivial) n)

theorem specialize_inPlace (depth : Nat) (sp : Specialization) (span : Span) :
    InPlace env FunctionId (specialize (Gen.generate depth) sp span) :=
  .specialize fun _ body _ _ => (Enlarges.pervasive.generateBody (enlarges_generate depth body)
    (fun _ _ d _ => enlarges_generate depth d) span).1

end Gen

/-! ## Expressions with an operand stay in scope -/

/-- Code for a block of `f` is being generated. -/
structure GenState.Generates (s : GenState) (f : Function) : Prop where
  function : s.unit.module.function? s.frame.function = some f
  shaped : f.Shaped
  inBlock : f.HasBlock s.frame.block

/-- Generation has got from `s₀` to `s` with the same names in scope, and is in a block of the
function, as it will be if it moves to one of the blocks `later`. -/
structure GenState.Steady (s₀ s : GenState) (later : List BlockId) : Prop where
  enlarged : s₀.Enlarged s
  scope : s.frame.scope = s₀.frame.scope
  blocks : ∃ f, s.unit.module.function? s₀.frame.function = some f ∧ f.Shaped ∧
    f.HasBlock s.frame.block ∧ ∀ b ∈ later, f.HasBlock b

namespace GenState.Steady

variable {s₀ s s' : GenState} {f : Function} {later : List BlockId} {b : BlockId}

theorem refl (h : s.Generates f) : s.Steady s [] where
  enlarged := .of_keeps rfl (.refl _ _)
  scope := rfl
  blocks := ⟨f, h.function, h.shaped, h.inBlock, by simp⟩

theorem generates (h : s₀.Steady s later) (hf : s₀.Generates f) :
    ∃ g, s.Generates g ∧ f.Within g := by
  obtain ⟨g, hg, hfg⟩ := h.enlarged.within hf.function
  obtain ⟨k, hk, hshaped, hb, -⟩ := h.blocks
  cases hg.symm.trans hk
  rw [← h.enlarged.function] at hg
  exact ⟨g, ⟨hg, hshaped, hb⟩, (hfg hf.shaped).2⟩

/-- A step that leaves the frame alone. -/
theorem step (h : s₀.Steady s later) (hs : s.Enlarged s') (hf : s'.frame = s.frame) :
    s₀.Steady s' later where
  enlarged := h.enlarged.trans hs
  scope := (congrArg Frame.scope hf).trans h.scope
  blocks := by
    obtain ⟨f, hfn, hshaped, hb, hlater⟩ := h.blocks
    rw [← h.enlarged.function] at hfn
    obtain ⟨g, hg, hfg⟩ := hs.within hfn
    obtain ⟨hgs, hwithin⟩ := hfg hshaped
    rw [h.enlarged.function] at hg
    rw [hf]
    exact ⟨g, hg, hgs, hwithin.hasBlock hb, fun c hc => hwithin.hasBlock (hlater c hc)⟩

/-- A new block can be moved to. -/
theorem appendBlock (h : s₀.Steady s later) (word : String) :
    s₀.Steady (s.mapFunction fun f => f.addBlock word)
      (s.query .absent Function.nextBlock :: later) where
  enlarged := h.enlarged.trans
    (.mapFunction s fun hf => ⟨shaped_addBlock word hf, within_addBlock hf word⟩)
  scope := h.scope
  blocks := by
    obtain ⟨f, hfn, hshaped, hb, hlater⟩ := h.blocks
    rw [← h.enlarged.function] at hfn ⊢
    refine ⟨f.addBlock word, s.function?_mapFunction hfn _, shaped_addBlock word hshaped, ?_, ?_⟩
    · exact (hasBlock_addBlock word).mpr (.inl hb)
    · rw [s.query_eq hfn]
      intro c hc
      rcases List.mem_cons.mp hc with rfl | hc
      · exact (hasBlock_addBlock word).mpr (.inr rfl)
      · exact (hasBlock_addBlock word).mpr (.inl (hlater c hc))

/-- Going on in a block of the function. -/
theorem positionAt (h : s₀.Steady s later) (hb : b ∈ later) :
    s₀.Steady { s with frame := { s.frame with block := b } } later where
  enlarged := ⟨h.enlarged.function, h.enlarged.within⟩
  scope := h.scope
  blocks := by
    obtain ⟨f, hfn, hshaped, -, hlater⟩ := h.blocks
    exact ⟨f, hfn, hshaped, hlater b hb, hlater⟩

theorem fewer (h : s₀.Steady s (b :: later)) : s₀.Steady s later where
  enlarged := h.enlarged
  scope := h.scope
  blocks := by
    obtain ⟨f, hfn, hshaped, hb, hlater⟩ := h.blocks
    exact ⟨f, hfn, hshaped, hb, fun c hc => hlater c (List.mem_cons_of_mem _ hc)⟩

end GenState.Steady

namespace Gen

variable {α β : Type} {env : Env} {generate : Generate}

/-- Code that goes on with the names that are in scope, in a block of the function. -/
def Abides (env : Env) (α : Type) (m : Gen α) : Prop :=
  ∀ s₀ later, Upholds env (fun s => GenState.Steady s₀ s later) (fun _ _ => True) α m

/-- Code that does so if it yields an operand. -/
def AbidesValue (env : Env) (m : Gen Value) : Prop :=
  ∀ s₀ later s, GenState.Steady s₀ s later →
    Leads env s m (fun v s' => v = .unit ∨ s₀.Steady s' later) fun _ _ => True

theorem AbidesValue.of_silent {m : Gen Value} (hm : Silent env m) : AbidesValue env m :=
  fun _ _ s _ => .intro (fun v s' hv => .inl (hm s v s' hv)) fun _ _ _ => trivial

namespace Abides

theorem of_inPlace {m : Gen α} (h : InPlace env α m) : Abides env α m :=
  fun _ _ s hs => (h s).mono (fun _ _ h => hs.step h.1 h.2) fun _ _ h => h

theorem linear : Linear env (fun _ => True) (Abides env) where
  aside := fun hm => of_inPlace (.aside hm)
  bind := fun hm hf s₀ later s hs => (hm s₀ later s hs).bind fun a s₁ ha h₁ =>
    hf a ⟨s, s₁, trivial, ha⟩ s₀ later s₁ h₁
  emit := fun d => of_inPlace (.emit d)
  emitSlot := fun t => of_inPlace (.emitSlot t)
  declare := fun name params ret attrs variadic span =>
    of_inPlace (.declare name params ret attrs variadic span)

theorem consumes : Consumes env (Abides env) (AbidesValue env) where
  value := fun hm s₀ later s hs => (hm s₀ later s hs).mono (fun _ _ => .inr) fun _ _ h => h
  consume := by
    intro β m f hm hf hunit s₀ later s hs
    refine (hm s₀ later s hs).bind fun v s₁ _ h₁ => ?_
    rcases h₁ with rfl | h₁
    · exact .intro (fun b s₂ hb => (hunit s₁ b s₂ hb).elim) fun _ _ _ => trivial
    · exact hf v s₀ later s₁ h₁
  pass := by
    intro m f hm hf hunit s₀ later s hs
    refine (hm s₀ later s hs).bind fun v s₁ _ h₁ => ?_
    rcases h₁ with rfl | h₁
    · exact .intro (fun w s₂ hw => .inl (hunit s₁ w s₂ hw)) fun _ _ _ => trivial
    · exact (hf v s₀ later s₁ h₁).mono (fun _ _ => .inr) fun _ _ h => h

end Abides

/-! ### Branches -/

section Branches

variable {s₀ s : GenState} {b : BlockId} {later : List BlockId} {Q : β → GenState → Prop}
  {E : Failure → GenState → Prop}

theorem Abides.andThen {m : Gen α} (hm : Abides env α m) {f : α → Gen β} (h : s₀.Steady s later)
    (k : ∀ a s', s₀.Steady s' later → Leads env s' (f a) Q fun _ _ => True) :
    Leads env s (m >>= f) Q fun _ _ => True :=
  (hm s₀ later s h).bind fun a s' _ h' => k a s' h'

theorem appendBlock_abides {word : String} {f : BlockId → Gen β} (h : s₀.Steady s later)
    (k : ∀ b s', s₀.Steady s' (b :: later) → Leads env s' (f b) Q E) :
    Leads env s (appendBlock word >>= f) Q E := by
  have hrun : appendBlock word env s = .ok (s.query .absent Function.nextBlock)
      (s.mapFunction fun f => f.addBlock word) := rfl
  have hk := k _ _ (h.appendBlock word)
  unfold Leads at hk ⊢
  rw [run_bind, hrun]
  exact hk

/-- The jump at the end of a block, and what goes on in another block of the function. -/
theorem jump_abides {t : Terminator} {m : Gen β} (h : s₀.Steady s later) (hb : b ∈ later)
    (k : ∀ s', s₀.Steady s' later → Leads env s' m Q fun _ _ => True) :
    Leads env s (do
      terminate t
      positionAt b
      m) Q fun _ _ => True := by
  refine (Abides.of_inPlace (.terminate t)).andThen h fun _ s₁ h₁ => ?_
  exact .bind (Q := fun _ s' => s₀.Steady s' later) (.of_ok rfl (h₁.positionAt hb)) fun _ s₂ _ h₂ =>
    k s₂ h₂

end Branches

theorem compareNullable_abides (lhs rhs : Value) (negated : Bool) (span : Span) :
    Abides env Value (compareNullable lhs rhs negated span) := by
  have h : Linear env (fun _ => True) (Abides env) := Abides.linear
  refine h.seq (h.equalitySide _ _) fun l => h.seq (h.equalitySide _ _) fun r => ?_
  refine h.seq (h.emitIsUndefined _) fun lu => h.seq (h.emitIsUndefined _) fun ru => ?_
  refine h.seq (h.emitBinary _ _ _) fun both => h.seq (h.emitBinary _ _ _) fun either => ?_
  refine h.seq (h.aside .currentBlock) fun entry => ?_
  intro s₀ later s hs
  refine appendBlock_abides hs fun payload s₁ h₁ => appendBlock_abides h₁ fun merge s₂ h₂ => ?_
  refine jump_abides h₂ (by simp) fun s₃ h₃ => ?_
  refine (h.payloadValue _ _).andThen h₃ fun x s₄ h₄ => ?_
  refine (h.payloadValue _ _).andThen h₄ fun y s₅ h₅ => ?_
  refine (h.comparePlain _ _ _ _).andThen h₅ fun v s₆ h₆ => ?_
  refine (h.operand _ _).andThen h₆ fun equal s₇ h₇ => ?_
  refine (h.aside .currentBlock).andThen h₇ fun payloadEnd s₈ h₈ => ?_
  refine jump_abides h₈ (by simp) fun s₉ h₉ => ?_
  have rest : Abides env Value (do
      let result ← Gen.emit (.phi .i1 [(both, entry), (equal, payloadEnd)])
      if negated then
        let truth ← Gen.emitBool true
        return .rvalue (← Gen.emitBinary .xor result truth) .boolean
      else return .rvalue result .boolean) := by
    refine h.seq (h.emit _) fun result => ?_
    split
    · exact h.seq (h.emitConst _) fun truth => h.map (h.emitBinary _ _ _) _
    · exact h.pure _
  exact rest s₀ later s₉ h₉.fewer.fewer

theorem shortCircuit_abides (op : BinaryOp) {left right : Node} (span : Span)
    (hl : AbidesValue env (generate left)) (hr : AbidesValue env (generate right)) :
    Abides env Value (shortCircuit generate op left right span) := by
  have h : Linear env (fun _ => True) (Abides env) := Abides.linear
  have hc : Consumes env (Abides env) (AbidesValue env) := Abides.consumes
  refine h.seq (hc.logicalOperand h op hl span) fun l => h.seq (h.aside .currentBlock) fun b => ?_
  intro s₀ later s hs
  refine appendBlock_abides hs fun rhsBlock s₁ h₁ => appendBlock_abides h₁ fun merge s₂ h₂ => ?_
  have joined {t : Terminator} : Leads env s₂ (do
      Gen.terminate t
      positionAt rhsBlock
      let rhs ← logicalOperand generate op right span
      let rhsEnd ← currentBlock
      Gen.terminate (.br merge)
      positionAt merge
      return Value.rvalue (← Gen.emit (.phi .i1 [(l, b), (rhs, rhsEnd)])) .boolean)
      (fun _ s' => s₀.Steady s' later) fun _ _ => True := by
    refine jump_abides h₂ (by simp) fun s₃ h₃ => ?_
    refine (hc.logicalOperand h op hr span).andThen h₃ fun r s₄ h₄ => ?_
    refine (h.aside .currentBlock).andThen h₄ fun rhsEnd s₅ h₅ => ?_
    refine jump_abides h₅ (by simp) fun s₆ h₆ => ?_
    exact h.map (h.emit _) _ s₀ later s₆ h₆.fewer.fewer
  dsimp only
  split
  · exact joined
  · exact joined

/-- The arms of a conditional of type `void` may be anything, as it has no operand either. -/
theorem conditional_abides {n : Node} (hp : ∀ c : Node, AbidesValue env (generate c)) :
    AbidesValue env (conditional generate n) := by
  have h : Linear env (fun _ => True) (Abides env) := Abides.linear
  have hc : Consumes env (Abides env) (AbidesValue env) := Abides.consumes
  unfold conditional
  split
  · next cond thenExpr elseExpr hform =>
    intro s₀ later s hs
    refine (h.aside (.nodeType n)).andThen hs fun t s₁ h₁ => ?_
    by_cases ht : t = .void
    · subst ht
      refine AbidesValue.of_silent ?_ s₀ later s₁ h₁
      repeat refine .after fun _ => ?_
      split
      · exact .after fun _ => .after fun _ => .pure
      · exact .pure
    · have arm (c : Node) : Abides env _ (conditionalArm generate c t n.span) := by
        refine hc.consume (hp c) (fun v => ?_) ?_
        · rw [if_neg ht]
          exact h.map (h.castOperand _ _ _) _
        · rw [if_neg ht]
          exact (castOperand_fails _ _).bind
      refine (hc.condition h (hp cond)).andThen h₁ fun c s₂ h₂ => ?_
      refine appendBlock_abides h₂ fun thenBlock s₃ h₃ => ?_
      refine appendBlock_abides h₃ fun elseBlock s₄ h₄ => ?_
      refine appendBlock_abides h₄ fun merge s₅ h₅ => jump_abides h₅ (by simp) fun s₆ h₆ => ?_
      refine (arm thenExpr).andThen h₆ fun a s₇ h₇ => ?_
      refine (h.aside .currentBlock).andThen h₇ fun thenEnd s₈ h₈ => ?_
      refine jump_abides h₈ (by simp) fun s₉ h₉ => (arm elseExpr).andThen h₉ fun b s₁₀ h₁₀ => ?_
      refine (h.aside .currentBlock).andThen h₁₀ fun elseEnd s₁₁ h₁₁ => ?_
      refine jump_abides h₁₁ (by simp) fun s₁₂ h₁₂ => ?_
      have hlast := h₁₂.fewer.fewer.fewer
      split
      · refine (h.aside (.layout _ _)).andThen hlast fun lowered s₁₃ h₁₃ => ?_
        exact hc.value (h.seq (h.emit _) fun x => h.aside (.valueOf _ _ _)) s₀ later s₁₃ h₁₃
      · exact .pure (.inl rfl)
  · exact hc.value (h.aside .wrongForm)

/-! ### Nodes -/

/-- A node that yields an operand has been generated within its function and its scope. -/
theorem generate_abides : ∀ (depth : Nat) (n : Node), AbidesValue env (Gen.generate depth n)
  | 0, _ => Abides.consumes.value (Abides.linear.aside (.throw (by simp)))
  | depth + 1, n => by
    have h : Linear env (fun _ => True) (Abides env) := Abides.linear
    have hexpr : Expressive env (fun _ => True) (Gen.generate depth) (fun _ => True) (Abides env)
        (AbidesValue env) := {
      toLinear := h
      toConsumes := Abides.consumes
      node := fun _ => generate_abides depth _
      part := fun _ _ => trivial
      compareNullable := compareNullable_abides
      shortCircuit := fun op _ _ span _ _ =>
        shortCircuit_abides op span (generate_abides depth _) (generate_abides depth _)
      conditional := fun _ => conditional_abides (generate_abides depth)
      specialize := fun s span _ _ _ => .of_inPlace (specialize_inPlace depth s span) }
    intro s₀ later s hs
    refine .read (a := env) rfl ?_
    split
    · next kind _ =>
      cases hk : kind.isExpression with
      | true => exact hexpr.standard trivial hk s₀ later s hs
      | false => exact AbidesValue.of_silent (standard_silent hk) s₀ later s hs
    · exact .of_error rfl trivial

end Gen

end TypedLowering
