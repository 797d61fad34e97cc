import TypedLowering.Proofs.Simulation.Variable

/-!
The code of a statement does what the statement does. Where a statement comes to its end, so does its
code; where it leaves a loop or goes on to the next turn, control enters the block that the innermost
loop has for that; where it returns, the call returns. The proof goes by induction on the execution,
and for loops by induction on the number of turns.
-/
namespace TypedLowering
set_option autoImplicit false
open Ssa Ssa.Function

namespace Gen

variable {env : Env} {n : Node} {depth : Nat}

/-! ## Structure -/

/-- A node is generated as its position asks for. -/
def SoundAt (env : Env) (generate : Generate) : Position → Node → Prop
  | .expression, n => Yields env generate n
  | .statement, n => Runs env generate n
  | .item, n => Settles env generate n
  | .init, n => Introduces env generate n

theorem identifier_yields (hr : env.registry.IsDiagonal) {name : String}
    (hf : n.form = .identifier name) : Yields env (Gen.generate depth) n :=
  pure_yields hr (.identifier hf)

theorem structured_sound (hr : env.registry.IsDiagonal) {p : Position} (hn : n.IsStructured p) :
    SoundAt env (Gen.generate depth) p n := by
  induction depth generalizing n p with
  | zero => cases p <;> exact fun _ _ _ h => (throw_ok h).elim
  | succ depth ih =>
    have pure {m : Node} (hm : m.IsPure) : Yields env (Gen.generate depth) m := pure_yields hr hm
    -- the generator made for the kind is the one that counts
    have yields {m : Node} {k : SyntaxKind} (hk : m.kind = k)
        (h : ∀ w : Site, Spec env w (standard (Gen.generate depth) k m) fun v x => x.Holds v) :
        Yields env (Gen.generate (depth + 1)) m :=
      fun w v s hs => h w v s (hk ▸ generate_succ_ok hr hs)
    have runs {m : Node} {k : SyntaxKind} (hk : m.kind = k)
        (h : ∀ w : Site, Spec env w.toWorld (standard (Gen.generate depth) k m) fun _ _ => True) :
        Runs env (Gen.generate (depth + 1)) m :=
      fun w v s hs => h w v s (hk ▸ generate_succ_ok hr hs)
    induction hn with
    | assign hf ht he =>
      refine yields (congrArg Form.kind hf) fun w => assignment_spec fun op t v he' => ?_
      cases hf.symm.trans he'
      exact ⟨identifier_yields hr ht, pure he⟩
    | compound hf _ ht he =>
      refine yields (congrArg Form.kind hf) fun w => assignment_spec fun op t v he' => ?_
      cases hf.symm.trans he'
      exact ⟨identifier_yields hr ht, pure he⟩
    | update hf ht =>
      refine yields (congrArg Form.kind hf) fun w => update_spec fun op b t he' => ?_
      cases hf.symm.trans he'
      exact identifier_yields hr ht
    | expressionStatement hf he _ =>
      refine runs (congrArg Form.kind hf) fun w => (expressionStatement_spec fun e he' => ?_).world
      cases hf.symm.trans he'
      exact ih he
    | block hf hbody _ =>
      refine runs (congrArg Form.kind hf) fun w => block_spec fun body he' m hm => ?_
      cases hf.symm.trans he'
      exact ih (hbody m hm)
    | ifElse hf hc ht he _ _ =>
      refine runs (congrArg Form.kind hf) fun w => ifElse_spec fun c t e he' => ?_
      cases hf.symm.trans he'
      exact ⟨pure hc, ih ht, fun m hm => ih (he m hm)⟩
    | whileLoop hf hc hb _ =>
      refine runs (congrArg Form.kind hf) fun w => whileLoop_spec fun c b he' => ?_
      cases hf.symm.trans he'
      exact ⟨pure hc, ih hb⟩
    | doWhile hf hc hb _ =>
      refine runs (congrArg Form.kind hf) fun w => doWhile_spec fun b c he' => ?_
      cases hf.symm.trans he'
      exact ⟨ih hb, pure hc⟩
    | forLoop hf hi hc hu hb _ _ _ =>
      refine runs (congrArg Form.kind hf) fun w => forLoop_spec fun i c u b he' => ?_
      cases hf.symm.trans he'
      exact ⟨fun m hm => ih (hi m hm), fun m hm => pure (hc m hm), fun m hm => ih (hu m hm), ih hb⟩
    | ret hf he =>
      refine runs (congrArg Form.kind hf) fun w => returnStatement_spec fun v he' => ?_
      cases hf.symm.trans he'
      exact pure (he v rfl)
    | breakLoop hf => exact runs (congrArg Form.kind hf) fun w => breakLoop_spec
    | continueLoop hf => exact runs (congrArg Form.kind hf) fun w => continueLoop_spec
    | empty hf => exact runs (congrArg Form.kind hf) fun w => .pure trivial
    | item _ hrun => exact Runs.settles hrun
    | init _ hyield => exact Yields.introduces hyield
    | @declaration m p name e mutable hf hp _ he =>
      have hintro : Introduces env (Gen.generate (depth + 1)) m := by
        intro w v s hs
        have hs := generate_succ_ok hr hs
        rw [show m.kind = .variableDeclaration from congrArg Form.kind hf] at hs
        refine variableDeclaration_later (fun name' e' mutable' he' => ?_) hs
        cases hf.symm.trans he'
        exact pure (he e' rfl)
      rcases hp with rfl | rfl
      · exact hintro.settles
      · exact hintro

end Gen

/-! ## Outcomes -/

namespace Ssa.Function

/-- The call goes on as the outcome says: to `goal`, to a block of the innermost loop of `w`, or to
its end. -/
def Reaches (F : Function) (w : World) (goal : Activation → Prop) (facts : Facts)
    (a : Activation) : Outcome → Prop
  | .normal => ∃ a', F.Steps (.running a) (.running a') ∧ goal a' ∧ F.Knows a' facts
  | .breaks => ∃ t rest a', w.frame.loops = t :: rest ∧ F.Steps (.running a) (.running a') ∧
    F.Enters t.breakTo a' ∧ F.Knows a' facts
  | .continues => ∃ t rest a', w.frame.loops = t :: rest ∧ F.Steps (.running a) (.running a') ∧
    F.Enters t.continueTo a' ∧ F.Knows a' facts
  | .returns v => F.Steps (.running a)
    (.returned (if w.frame.returnType = .void then none else v.map .word))

namespace Reaches

variable {F : Function} {w x : World} {goal goal' : Activation → Prop} {facts facts' : Facts}
  {a a' : Activation} {o : Outcome}

theorem after (h : F.Reaches w goal facts a' o) (hs : F.Steps (.running a) (.running a')) :
    F.Reaches w goal facts a o := by
  cases o with
  | normal =>
    obtain ⟨b, hb, h⟩ := h
    exact ⟨b, hs.trans hb, h⟩
  | breaks | continues =>
    obtain ⟨t, rest, b, hl, hb, h⟩ := h
    exact ⟨t, rest, b, hl, hs.trans hb, h⟩
  | returns v => exact hs.trans h

theorem mono (h : F.Reaches w goal facts a o) (hs : facts' ⊆ facts) :
    F.Reaches w goal facts' a o := by
  cases o with
  | normal =>
    obtain ⟨b, hb, hg, hk⟩ := h
    exact ⟨b, hb, hg, fun p hp => hk p (hs hp)⟩
  | breaks | continues =>
    obtain ⟨t, rest, b, hl, hb, he, hk⟩ := h
    exact ⟨t, rest, b, hl, hb, he, fun p hp => hk p (hs hp)⟩
  | returns v => exact h

/-- Control goes on from one goal to another. -/
theorem next (h : F.Reaches w goal facts a o)
    (hn : ∀ b, goal b → F.Knows b facts → ∃ b', F.Steps (.running b) (.running b') ∧ goal' b' ∧
      F.Knows b' facts) : F.Reaches w goal' facts a o := by
  cases o with
  | normal =>
    obtain ⟨b, hb, hg, hk⟩ := h
    obtain ⟨b', hb', h⟩ := hn b hg hk
    exact ⟨b', hb.trans hb', h⟩
  | breaks | continues | returns v => exact h

/-- A jump or return from a later place is one from here. -/
theorem within (h : F.Reaches x goal facts a o) (hw : w.Later x) :
    F.Reaches w goal facts a o := by
  have hl := hw.loops_eq
  have hr := hw.ret_eq
  cases o with
  | normal => exact h
  | breaks | continues =>
    obtain ⟨t, rest, b, ht, h⟩ := h
    exact ⟨t, rest, b, hl.symm.trans ht, h⟩
  | returns v =>
    unfold Reaches at h ⊢
    rw [← hr]
    exact h

end Reaches

end Ssa.Function

/-- The code between `w` and `x` turns the variables of one store to those of another and ends as
the outcome says. -/
structure Simulates (w x : World) (L L' : Layout) (σ σ' : Store) (o : Outcome) : Prop where
  layout : L <:+ L'
  fits : L'.Fits σ'
  ends : o = .normal → x.Lays L' ∧ x.IsOpen
  runs : ∀ F : Function, F.Completes x.fn → ∀ a, F.At w a → F.Knows a (L.facts σ) →
    F.Reaches w (F.At x) (L'.facts σ') a o

/-- The variables that are declared since `w` go out of scope. -/
theorem Simulates.restored {w x y : World} {L L' : Layout} {σ σ' : Store}
    {o : Outcome} (h : Simulates w x L L' σ σ' o)
    (hL : L.length = σ.length) (hlays : y.Lays L) (hm : x.Moves y x.block) :
    Simulates w y L L σ (σ'.keep σ.length) o where
  layout := List.suffix_refl L
  fits := by
    rw [← hL]
    exact h.fits.keep h.layout
  ends := by
    intro ho
    refine ⟨hlays, ?_⟩
    show y.fn.exit y.block = none
    rw [hm.fn, hm.block]
    exact (h.ends ho).2
  runs := by
    intro F hF a ha hk
    rw [hm.fn] at hF
    have hreach := (h.runs F hF a ha hk).mono (h.fits.facts_keep h.layout)
    rw [hL] at hreach
    exact hreach.next fun b hb hk => ⟨b, .refl, hb.moves hm, hk⟩

namespace Gen

variable {env : Env} {σ σ' : Store} {o : Outcome}

/-- The code of a node does what the node does. -/
def NodeCarries (env : Env) (n : Node) (σ : Store) (o : Outcome) (σ' : Store) : Prop :=
  ∀ {p : Position} {depth : Nat} {L : Layout} {w : Site} {v : Value} {s : GenState},
    n.IsStructured p → w.Lays L → L.Fits σ → Gen.generate depth n env w.state = .ok v s →
    ∃ (x : World) (L' : Layout), x.state = s ∧ w.Later x ∧
      (p = .statement ∨ p = .expression → L' = L) ∧ Simulates w.toWorld x L L' σ σ' o

def ListCarries (env : Env) (nodes : List Node) (σ : Store) (o : Outcome) (σ' : Store) : Prop :=
  ∀ {depth : Nat} {L : Layout} {w : Site} {u : Unit} {s : GenState},
    (∀ m ∈ nodes, m.IsStructured .item) → w.Lays L → L.Fits σ →
    statements (Gen.generate depth) nodes env w.state = .ok u s →
    ∃ (x : World) (L' : Layout), x.state = s ∧ w.Later x ∧ Simulates w.toWorld x L L' σ σ' o

/-- From the test of a loop control gets to the block behind it, unless the call returns. -/
def LoopCarries (env : Env) (c u : Option Node) (b : Node) (σ : Store) (o : Outcome) (σ' : Store) :
    Prop :=
  ∀ {depth : Nat} {L : Layout} {w : World} {F : Function} {header inner next exit : BlockId},
    (∀ m, c = some m → m.IsPure) → (∀ m, u = some m → m.IsStructured .expression) →
    b.IsStructured .statement → w.Lays L → L.Fits σ →
    Loop env (Gen.generate depth) F c u b w header inner next exit →
    F.HasBlock exit → exit ≠ entry → L.Fits σ' ∧ ∀ a, F.Enters header a →
      F.Knows a (L.facts σ) → F.Reaches w (F.Enters exit) (L.facts σ') a o

def Carries (env : Env) (σ : Store) (o : Outcome) (σ' : Store) : Task → Prop
  | .node n => NodeCarries env n σ o σ'
  | .list nodes => ListCarries env nodes σ o σ'
  | .optional none => o = .normal ∧ σ' = σ
  | .optional (some n) => NodeCarries env n σ o σ'
  | .loop c u b => LoopCarries env c u b σ o σ'

/-! ## Statements without branches -/

variable {n : Node} {depth : Nat} {L : Layout} {w : Site}

/-- A node that is generated as `Steers` says. -/
theorem NodeCarries.of_steers
    (h : ∀ {p depth L} {w : Site}, n.IsStructured p →
      Steers env w (L.facts σ) L σ (Gen.generate depth n) σ')
    (hlen : ∀ {p}, n.IsStructured p → p = .statement ∨ p = .expression → σ'.length = σ.length) :
    NodeCarries env n σ .normal σ' := by
  intro p depth L w v s hn hlays hfits hrun
  obtain ⟨x, L', hx, hl, hs, hlays', hfits', hsteps⟩ :=
    h hn (hlays.offers hfits) hlays hfits (List.Subset.refl _) v s hrun
  refine ⟨x.toWorld, L', hx, hl, fun hp => hfits.eq_of_suffix hfits' hs (hlen hn hp), hs, hfits',
    fun _ => ⟨hlays', x.isOpen⟩, ?_⟩
  intro F hF a ha hk
  obtain ⟨a', hst, hat, hk', -⟩ := hsteps F hF a ha hk
  exact ⟨a', hst, hat, hk'⟩

theorem generate_standard_ok {k : SyntaxKind} {s s' : GenState} {v : Value}
    (hr : env.registry.IsDiagonal) (hk : n.kind = k)
    (h : Gen.generate depth n env s = .ok v s') :
    ∃ d, standard (Gen.generate d) k n env s = .ok v s' := by
  cases depth with
  | zero => exact (throw_ok h).elim
  | succ d => exact ⟨d, hk ▸ generate_succ_ok hr h⟩

theorem expressionStatement_carries {e : Node} (hr : env.registry.IsDiagonal)
    (hf : n.form = .expressionStatement e) (ih : NodeCarries env e σ o σ') :
    NodeCarries env n σ o σ' := by
  intro p depth L w v s hn hlays hfits h
  obtain ⟨d, h⟩ := generate_standard_ok hr (congrArg Form.kind hf) h
  have h : expressionStatement (Gen.generate d) n env w.state = .ok v s := h
  unfold expressionStatement at h
  rw [hf] at h
  obtain ⟨u, s₁, h₁, h⟩ := bind_ok h
  obtain ⟨-, rfl⟩ := pure_ok h
  obtain ⟨x, L', hx, hl, he, hsim⟩ := ih (hn.of_expressionStatement hf) hlays hfits h₁
  exact ⟨x, L', hx, hl, fun _ => he (.inr rfl), hsim⟩

theorem openBlock_open {u : Unit} {s : GenState} (h : openBlock env w.state = .ok u s) :
    s = w.state := by
  obtain ⟨b, s₁, h₁, h⟩ := bind_ok h
  cases h₁
  have hopen : w.state.query false (fun f => f.isTerminated w.state.frame.block) = false := by
    rw [w.state.query_eq w.current, isTerminated_eq, w.isOpen]
    rfl
  rw [hopen] at h
  exact (pure_ok h).2

theorem nil_carries : ListCarries env [] σ .normal σ := by
  intro depth L w u s _ hlays hfits h
  obtain ⟨-, rfl⟩ := pure_ok h
  refine ⟨w.toWorld, L, rfl, .refl _, List.suffix_refl L, hfits, fun _ => ⟨hlays, w.isOpen⟩, ?_⟩
  intro F _ a ha hk
  exact ⟨a, .refl, ha, hk⟩

theorem cons_carries {rest : List Node} {σ₁ : Store} (ihn : NodeCarries env n σ .normal σ₁)
    (ihr : ListCarries env rest σ₁ o σ') : ListCarries env (n :: rest) σ o σ' := by
  intro depth L w u s hn hlays hfits h
  obtain ⟨u₁, s₁, h₁, h⟩ := bind_ok h
  obtain rfl := openBlock_open h₁
  obtain ⟨v, s₂, h₂, h⟩ := bind_ok h
  obtain ⟨x, L₁, rfl, hwx, -, hsim⟩ := ihn (hn n List.mem_cons_self) hlays hfits h₂
  obtain ⟨hlays₁, hopen⟩ := hsim.ends rfl
  obtain ⟨y, L', hy, hxy, hsim'⟩ := ihr (w := ⟨x, hopen⟩)
    (fun m hm => hn m (List.mem_cons_of_mem n hm)) hlays₁ hsim.fits h
  refine ⟨y, L', hy, hwx.trans hxy, hsim.layout.trans hsim'.layout, hsim'.fits, hsim'.ends, ?_⟩
  intro F hF a ha hk
  obtain ⟨a₁, hsteps, hat, hk₁⟩ := hsim.runs F (hF.trans hxy.completes) a ha hk
  have hreach := hsim'.runs F hF a₁ hat hk₁
  exact (hreach.within hwx).after hsteps

/-- What follows a jump is generated where control does not come. -/
theorem consStop_carries {rest : List Node} (hr : env.registry.IsDiagonal)
    (ihn : NodeCarries env n σ o σ') (ho : o ≠ .normal) :
    ListCarries env (n :: rest) σ o σ' := by
  intro depth L w u s hn hlays hfits h
  obtain ⟨u₁, s₁, h₁, h⟩ := bind_ok h
  obtain rfl := openBlock_open h₁
  obtain ⟨v, s₂, h₂, h⟩ := bind_ok h
  obtain ⟨x, L', rfl, hwx, -, hsim⟩ := ihn (hn n List.mem_cons_self) hlays hfits h₂
  obtain ⟨y, hy, hxy⟩ := statements_later
    (fun m hm => structured_sound hr (hn m (List.mem_cons_of_mem n hm))) h
  refine ⟨y, L', hy, hwx.trans hxy, hsim.layout, hsim.fits, fun h => (ho h).elim, ?_⟩
  intro F hF a ha hk
  have hreach := hsim.runs F (hF.trans hxy.completes) a ha hk
  cases o with
  | normal => exact (ho rfl).elim
  | breaks | continues | returns v => exact hreach

theorem block_carries {body : List Node} (hr : env.registry.IsDiagonal)
    (hf : n.form = .block body) (ih : ListCarries env body σ o σ') :
    NodeCarries env n σ o (σ'.keep σ.length) := by
  intro p depth L w v s hn hlays hfits h
  obtain ⟨d, h⟩ := generate_standard_ok hr (congrArg Form.kind hf) h
  have h : block (Gen.generate d) n env w.state = .ok v s := h
  unfold block at h
  rw [hf] at h
  obtain ⟨fr, s₁, h₁, h⟩ := bind_ok h
  cases h₁
  obtain ⟨u, s₂, h₂, h⟩ := bind_ok h
  obtain ⟨x, L', rfl, hwx, hsim⟩ := ih (hn.of_block hf) hlays hfits h₂
  obtain ⟨y, hy, hm, hwy⟩ := exists_restored hwx
  refine ⟨y, L, ?_, hwy.1, fun _ => rfl,
    hsim.restored hfits.length_eq (hlays.inherits (.of_le hwy)) hm⟩
  rw [hy]
  cases h
  rfl

theorem empty_carries (hr : env.registry.IsDiagonal) (hf : n.form = .empty) :
    NodeCarries env n σ .normal σ := by
  intro p depth L w v s hn hlays hfits h
  obtain ⟨d, h⟩ := generate_standard_ok hr (congrArg Form.kind hf) h
  obtain ⟨-, rfl⟩ := pure_ok h
  refine ⟨w.toWorld, L, rfl, .refl _, fun _ => rfl, List.suffix_refl L, hfits,
    fun _ => ⟨hlays, w.isOpen⟩, ?_⟩
  intro F _ a ha hk
  exact ⟨a, .refl, ha, hk⟩

/-! ## Jumps -/

/-- A jump to a block of the innermost loop. -/
theorem jump_carries (block : LoopTarget → BlockId)
    (hblock : ∀ t, block t = t.breakTo ∨ block t = t.continueTo)
    {message : String} {span : Span} {v : Value} {s : GenState}
    (h : (do
      match (← frame).loops with
      | target :: _ =>
        terminate (.br (block target))
        return Value.unit
      | [] => internal message span : Gen Value) env w.state = .ok v s) :
    ∃ (t : LoopTarget) (rest : List LoopTarget) (x : World), w.frame.loops = t :: rest ∧
      x.state = s ∧ w.Later x ∧ ∀ F : Function, F.Completes x.fn → ∀ a facts,
        F.At w.toWorld a → F.Knows a facts →
        ∃ a', F.Steps (.running a) (.running a') ∧ F.Enters (block t) a' ∧ F.Knows a' facts := by
  obtain ⟨fr, s₁, h₁, h⟩ := bind_ok (m := frame) h
  cases h₁
  cases hl : w.state.frame.loops with
  | nil =>
    rw [hl] at h
    exact (internal_ok h).elim
  | cons t rest =>
    rw [hl] at h
    have hl : w.frame.loops = t :: rest := hl
    have hb : w.frame.IsTarget (block t) := ⟨t, by rw [hl]; exact List.mem_cons_self, hblock t⟩
    obtain ⟨u, s₁, h₁, h⟩ := bind_ok h
    obtain ⟨x, rfl, hwx, hend⟩ := terminate_target hb u s₁ h₁
    obtain ⟨-, rfl⟩ := pure_ok h
    refine ⟨t, rest, x, rfl, rfl, hwx.1, ?_⟩
    intro F hF a facts ha hk
    have htarget := w.fits.target hb
    have hclosed := hend.closedIn.completed hF
    obtain ⟨a', hsteps, henters, hreg, hmem, -⟩ :=
      ha.br hclosed (hclosed.completes.hasBlock htarget.hasBlock) htarget.ne_entry
    exact ⟨a', hsteps, henters, hk.congr hreg hmem⟩

theorem breakLoop_carries (hr : env.registry.IsDiagonal) (hf : n.form = .breakLoop) :
    NodeCarries env n σ .breaks σ := by
  intro p depth L w v s hn hlays hfits h
  obtain ⟨d, h⟩ := generate_standard_ok hr (congrArg Form.kind hf) h
  obtain ⟨t, rest, x, hl, hx, hwx, hrun⟩ := jump_carries LoopTarget.breakTo (fun _ => .inl rfl) h
  refine ⟨x, L, hx, hwx, fun _ => rfl, List.suffix_refl L, hfits, by simp, ?_⟩
  intro F hF a ha hk
  obtain ⟨a', hstep⟩ := hrun F hF a _ ha hk
  exact ⟨t, rest, a', hl, hstep⟩

theorem continueLoop_carries (hr : env.registry.IsDiagonal) (hf : n.form = .continueLoop) :
    NodeCarries env n σ .continues σ := by
  intro p depth L w v s hn hlays hfits h
  obtain ⟨d, h⟩ := generate_standard_ok hr (congrArg Form.kind hf) h
  obtain ⟨t, rest, x, hl, hx, hwx, hrun⟩ := jump_carries LoopTarget.continueTo (fun _ => .inr rfl) h
  refine ⟨x, L, hx, hwx, fun _ => rfl, List.suffix_refl L, hfits, by simp, ?_⟩
  intro F hF a ha hk
  obtain ⟨a', hstep⟩ := hrun F hF a _ ha hk
  exact ⟨t, rest, a', hl, hstep⟩

/-- The end of a call. -/
theorem At.returns {F : Function} {x : Site} {y : World} {a : Activation} {r : Option ValueId}
    {value : Option Datum} (ha : F.At x.toWorld a) (hend : x.toWorld.Ends y (.ret r))
    (hF : F.Completes y.fn) (hv : F.leave a (.ret r) = some (.returned value)) :
    F.Steps (.running a) (.returned value) :=
  .single ((ha.step_leave (hend.closedIn.completed hF)).trans hv)

theorem ret_carries (hr : env.registry.IsDiagonal) (hf : n.form = .ret none) :
    NodeCarries env n σ (.returns none) σ := by
  intro p depth L w v s hn hlays hfits h
  obtain ⟨d, h⟩ := generate_standard_ok hr (congrArg Form.kind hf) h
  have h : returnStatement (Gen.generate d) n env w.state = .ok v s := h
  unfold returnStatement at h
  rw [hf] at h
  obtain ⟨fr, s₁, h₁, h⟩ := bind_ok h
  cases h₁
  dsimp only at h
  by_cases ht : w.state.frame.returnType = .void
  · rw [if_pos ht] at h
    obtain ⟨u, s₂, h₂, h⟩ := bind_ok h
    obtain ⟨x, rfl, hwx, hend⟩ :=
      terminate_leave (t := .ret none) (by simp [Terminator.uses]) rfl u s₂ h₂
    obtain ⟨-, rfl⟩ := pure_ok h
    refine ⟨x, L, rfl, hwx.1, fun _ => rfl, List.suffix_refl L, hfits, by simp, ?_⟩
    intro F hF a ha hk
    show F.Steps _ _
    rw [if_pos ht]
    exact At.returns ha hend hF rfl
  · rw [if_neg ht] at h
    obtain ⟨u, s₂, h₂, h⟩ := bind_ok h
    exact (internal_ok h₂).elim

/-- A value is returned at the type of the function, or dropped if it returns nothing. -/
theorem retValue_carries {e : Node} {c : Word} (hr : env.registry.IsDiagonal)
    (hf : n.form = .ret (some e)) (he : e.Evaluates σ c) :
    NodeCarries env n σ (.returns (some c)) σ := by
  intro p depth L w v s hn hlays hfits h
  have hpure := hn.of_ret hf e rfl
  obtain ⟨d, h⟩ := generate_standard_ok hr (congrArg Form.kind hf) h
  have h : returnStatement (Gen.generate d) n env w.state = .ok v s := h
  unfold returnStatement at h
  rw [hf] at h
  obtain ⟨fr, s₁, h₁, h⟩ := bind_ok h
  cases h₁
  dsimp only at h
  have ho := hlays.offers hfits
  have hcomp := computes_of_lays d hr hlays hfits (List.Subset.refl _) hpure he
  by_cases ht : w.state.frame.returnType = .void
  · rw [if_pos ht] at h
    obtain ⟨q, s₂, h₂, h⟩ := bind_ok h
    obtain ⟨x, rfl, hwx, -, hrun⟩ := hcomp w rfl ho q s₂ h₂
    obtain ⟨u, s₃, h₃, h⟩ := bind_ok h
    obtain ⟨y, rfl, hxy, hend⟩ :=
      terminate_leave (t := .ret none) (by simp [Terminator.uses]) rfl u s₃ h₃
    obtain ⟨-, rfl⟩ := pure_ok h
    refine ⟨y, L, rfl, (Site.later hwx).trans hxy.1, fun _ => rfl, List.suffix_refl L, hfits,
      by simp, ?_⟩
    intro F hF a ha hk
    obtain ⟨a₁, hruns, -⟩ := hrun F (hF.trans hend.completes) a ha hk
    show F.Steps _ _
    rw [if_pos ht]
    exact hruns.steps.trans (At.returns hruns.stands hend hF rfl)
  · rw [if_neg ht] at h
    have hword : w.state.frame.returnType.isWord = true := hlays.ret.resolve_left ht
    obtain ⟨q, s₂, h₂, h⟩ := bind_ok h
    have htype := type_eq_of_generateOperand hcomp ho hword h₂
    rw [htype] at h₂
    obtain ⟨x, rfl, hwx, hoff, hrun⟩ := generateOperand_performs hcomp ho q s₂ h₂
    obtain ⟨u, s₃, h₃, h⟩ := bind_ok h
    have hhas : x.Has q := World.holds_rvalue.mp (hoff (.rvalue q c.type, c) (by simp)).1
    obtain ⟨y, rfl, hxy, hend⟩ := terminate_leave (t := .ret (some q))
      (by simpa [Terminator.uses] using hhas) rfl u s₃ h₃
    obtain ⟨-, rfl⟩ := pure_ok h
    refine ⟨y, L, rfl, (Site.later hwx).trans hxy.1, fun _ => rfl, List.suffix_refl L, hfits,
      by simp, ?_⟩
    intro F hF a ha hk
    obtain ⟨a₁, hruns, hk₁⟩ := hrun F (hF.trans hend.completes) a ha hk
    have hreg : a₁.registers q = some (.word c) := hk₁ (.rvalue q c.type, c) (by simp)
    show F.Steps _ _
    rw [if_neg ht]
    exact hruns.steps.trans (At.returns hruns.stands hend hF (by simp [leave, hreg]))

/-! ## Branches -/

/-- A test sends control where its value says. -/
theorem test_enters {F : Function} {m : Node} {c : ValueId} {x : Site} {b e : BlockId} {p : Bool}
    {a : Activation} (hr : env.registry.IsDiagonal) (hm : m.IsPure)
    (heval : m.Evaluates σ (.bool p)) (hlays : w.Lays L) (hfits : L.Fits σ)
    (hrun : condition (Gen.generate depth) m env w.state = .ok c x.state)
    (hend : x.toWorld.ClosedIn F (.condBr c b e)) (hb : F.HasBlock b ∧ b ≠ entry)
    (he : F.HasBlock e ∧ e ≠ entry) (ha : F.At w.toWorld a) (hk : F.Knows a (L.facts σ)) :
    ∃ a', F.Steps (.running a) (.running a') ∧ F.Enters (if p then b else e) a' ∧
      F.Knows a' (L.facts σ) := by
  have ho := hlays.offers hfits
  have hcomp := computes_of_lays depth hr hlays hfits (List.Subset.refl _) hm heval
  obtain ⟨y, hstate, -, -, hperform⟩ := condition_performs rfl hcomp ho c x.state hrun
  have hfn : y.fn = x.fn := World.fn_eq_of_state hstate
  obtain ⟨a₁, hruns, hk₁⟩ := hperform F (hfn ▸ hend.completes) a ha hk
  have hreg : a₁.registers c = some (.word (.bool p)) :=
    hk₁ (.rvalue c .boolean, .bool p) (by simp)
  obtain ⟨a₂, hsteps, henters, hreg₂, hmem₂, -⟩ := (hruns.stands.congr hstate).condBr hend hreg
    (by cases p <;> simp [hb, he]) (by cases p <;> simp [hb, he])
  exact ⟨a₂, hruns.steps.trans hsteps, henters, (hruns.knows ho hk).congr hreg₂ hmem₂⟩

/-- A statement in blocks of its own, from where control goes on to `target`. -/
theorem Passage.reaches {F : Function} {target : BlockId} {y : Site} {y' : World}
    (h : Passage env F (Gen.generate depth n) target y y') (ih : NodeCarries env n σ o σ')
    (hn : n.IsStructured .statement) (hlays : y.Lays L) (hfits : L.Fits σ)
    (ht : F.HasBlock target ∧ target ≠ entry) :
    L.Fits σ' ∧ ∀ a, F.Enters y.block a → F.Knows a (L.facts σ) →
      F.Reaches y.toWorld (F.Enters target) (L.facts σ') a o := by
  obtain ⟨v, hrun⟩ := h.runs
  obtain ⟨x, L', hstate, -, hL, hsim⟩ := ih hn hlays hfits hrun
  obtain rfl := hL (.inl rfl)
  have hfn : x.fn = y'.fn := World.fn_eq_of_state hstate
  refine ⟨hsim.fits, fun a ha hk => ?_⟩
  have hreach := hsim.runs F (hfn ▸ h.completes) a (ha.at h.head) hk
  cases o with
  | normal =>
    have hopen : y'.IsOpen := by
      have hb : x.block = y'.block := congrArg (·.frame.block) hstate
      show y'.fn.exit y'.block = none
      rw [← hfn, ← hb]
      exact (hsim.ends rfl).2
    refine hreach.next fun b hb hk => ?_
    obtain ⟨b', hsteps, henters, hreg, hmem, -⟩ := (hb.congr hstate).br (h.back hopen) ht.1 ht.2
    exact ⟨b', hsteps, henters, hk.congr hreg hmem⟩
  | breaks | continues | returns v => exact hreach

/-- A branch is its test and the way that control takes from there. -/
theorem ifElse_carries {cond thenBranch : Node} {elseBranch : Option Node} {p : Bool}
    (hr : env.registry.IsDiagonal) (hf : n.form = .ifElse cond thenBranch elseBranch)
    (heval : cond.Evaluates σ (.bool p))
    (ih : Carries env σ o σ' (if p then .node thenBranch else .optional elseBranch)) :
    NodeCarries env n σ o σ' := by
  intro q depth L w v s hn hlays hfits h
  obtain ⟨hcond, hthen, helse⟩ := hn.of_ifElse hf
  obtain ⟨d, h⟩ := generate_standard_ok hr (congrArg Form.kind hf) h
  obtain ⟨z, hz, hwz, c, x, y, y', other, hrun, htest, hwy, hpass, hmeet, hother⟩ :=
    ifElse_shape (w := w) hf (pure_yields hr hcond) (structured_sound hr hthen)
      (fun e he => structured_sound hr (helse e he)) v s h
  have hlaysz : z.Lays L := hlays.inherits (.of_le hwz)
  -- whichever way control takes, it gets to `z`
  have finish {u : Site} {u' : World} {m : Node} (hwu : w.toWorld ≤ u.toWorld)
      (hm : m.IsStructured .statement) (ihm : NodeCarries env m σ o σ')
      (hu : Passage env z.fn (Gen.generate d m) z.block u u')
      (hway : ∀ F : Function, F.Completes z.fn → ∀ a, F.At w.toWorld a → F.Knows a (L.facts σ) →
        ∃ a', F.Steps (.running a) (.running a') ∧ F.Enters u.block a' ∧ F.Knows a' (L.facts σ)) :
      Simulates w.toWorld z.toWorld L L σ σ' o := by
    have hlaysu : u.Lays L := hlays.inherits (.of_le hwu)
    refine ⟨List.suffix_refl L, (hu.reaches ihm hm hlaysu hfits hmeet.enterable).1,
      fun _ => ⟨hlaysz, z.isOpen⟩, ?_⟩
    intro F hF a ha hk
    obtain ⟨a₁, hsteps, henters, hk₁⟩ := hway F hF a ha hk
    have hmeet := hmeet.completed hF
    have hreach := ((hu.completed hF).reaches ihm hm hlaysu hfits hmeet.enterable).2 a₁ henters hk₁
    exact ((hreach.within hwu.1).after hsteps).next fun b hb hk => ⟨b, .refl, hb.at hmeet, hk⟩
  have hway (hb : ∀ F : Function, F.Completes z.fn → F.HasBlock other ∧ other ≠ entry)
      (F : Function) (hF : F.Completes z.fn) (a : Activation) (ha : F.At w.toWorld a)
      (hk : F.Knows a (L.facts σ)) : ∃ a', F.Steps (.running a) (.running a') ∧
        F.Enters (if p then y.block else other) a' ∧ F.Knows a' (L.facts σ) :=
    test_enters hr hcond heval hlays hfits hrun (htest.completed hF)
      (hpass.completed hF).head.enterable (hb F hF) ha hk
  refine ⟨z.toWorld, L, hz, hwz.1, fun _ => rfl, ?_⟩
  cases elseBranch with
  | none =>
    obtain rfl := hother
    have hway := hway fun F hF => (hmeet.completed hF).enterable
    cases p with
    | true => exact finish hwy hthen ih hpass hway
    | false =>
      obtain ⟨rfl, rfl⟩ := ih
      refine ⟨List.suffix_refl L, hfits, fun _ => ⟨hlaysz, z.isOpen⟩, ?_⟩
      intro F hF a ha hk
      obtain ⟨a₁, hsteps, henters, hk₁⟩ := hway F hF a ha hk
      exact ⟨a₁, hsteps, henters.at (hmeet.completed hF), hk₁⟩
  | some e =>
    obtain ⟨u, u', rfl, hwu, hpass'⟩ := hother
    have hway := hway fun F hF => (hpass'.completed hF).head.enterable
    cases p with
    | true => exact finish hwy hthen ih hpass hway
    | false => exact finish hwu (helse e rfl) ih hpass' hway

/-! ## Loops -/

section Loops

variable {F : Function} {c u : Option Node} {b : Node} {base : World}
  {header inner next exit : BlockId} {σ₁ σ₂ : Store} {o₁ : Outcome}

theorem Loop.enterable (h : Loop env (Gen.generate depth) F c u b base header inner next exit) :
    (F.HasBlock header ∧ header ≠ entry) ∧ (F.HasBlock inner ∧ inner ≠ entry) ∧
      (F.HasBlock next ∧ next ≠ entry) := by
  obtain ⟨x, rfl, -, hhead, -⟩ := h.test
  obtain ⟨y, y', rfl, -, -, hpass⟩ := h.turn
  refine ⟨hhead.enterable, hpass.head.enterable, ?_⟩
  rcases h.again with ⟨-, rfl⟩ | ⟨x', u', rfl, -, hhead', -⟩
  · exact hhead.enterable
  · exact hhead'.enterable

/-- The test of a loop sends control into the loop or behind it. -/
theorem Loop.test_enters {p : Bool} (hr : env.registry.IsDiagonal)
    (h : Loop env (Gen.generate depth) F c u b base header inner next exit)
    (hexit : F.HasBlock exit ∧ exit ≠ entry) (hc : ∀ m, c = some m → m.IsPure)
    (heval : ∀ m, c = some m → m.Evaluates σ (.bool p)) (hnone : c = none → p = true)
    (hlays : base.Lays L) (hfits : L.Fits σ) {a : Activation} (ha : F.Enters header a)
    (hk : F.Knows a (L.facts σ)) :
    ∃ a', F.Steps (.running a) (.running a') ∧ F.Enters (if p then inner else exit) a' ∧
      F.Knows a' (L.facts σ) := by
  obtain ⟨-, hinner, -⟩ := h.enterable
  obtain ⟨x, rfl, hi, hhead, htest⟩ := h.test
  cases c with
  | none =>
    obtain rfl := hnone rfl
    obtain ⟨a', hsteps, henters, hreg, hmem, -⟩ := (ha.at hhead).br htest hinner.1 hinner.2
    exact ⟨a', hsteps, henters, hk.congr hreg hmem⟩
  | some m =>
    obtain ⟨r, y, hrun, hend⟩ := htest
    exact Gen.test_enters hr (hc m rfl) (heval m rfl) (hlays.inherits hi) hfits hrun hend hinner
      hexit (ha.at hhead) hk

/-- The body of a loop: control goes on to `next`, leaves the loop, or the call returns. -/
theorem Loop.turn_reaches
    (h : Loop env (Gen.generate depth) F c u b base header inner next exit)
    (ih : NodeCarries env b σ o₁ σ₁) (hb : b.IsStructured .statement) (hlays : base.Lays L)
    (hfits : L.Fits σ) : L.Fits σ₁ ∧ ∀ a, F.Enters inner a → F.Knows a (L.facts σ) →
      match o₁ with
      | .normal | .continues => ∃ a', F.Steps (.running a) (.running a') ∧ F.Enters next a' ∧
        F.Knows a' (L.facts σ₁)
      | .breaks => ∃ a', F.Steps (.running a) (.running a') ∧ F.Enters exit a' ∧
        F.Knows a' (L.facts σ₁)
      | .returns v => F.Reaches base (F.Enters exit) (L.facts σ₁) a (.returns v) := by
  have hnext := h.enterable.2.2
  obtain ⟨y, y', rfl, hi, hloops, hpass⟩ := h.turn
  obtain ⟨hfits₁, hreach⟩ := hpass.reaches ih hb (hlays.inherits hi) hfits hnext
  refine ⟨hfits₁, fun a ha hk => ?_⟩
  have hreach := hreach a ha hk
  cases o₁ with
  | normal => exact hreach
  | breaks | continues =>
    obtain ⟨t, rest, a', hl, hstep⟩ := hreach
    cases hloops.symm.trans hl
    exact ⟨a', hstep⟩
  | returns v =>
    unfold Reaches at hreach ⊢
    rw [← hi.ret]
    exact hreach

/-- The way back to the test. -/
theorem Loop.again_enters
    (h : Loop env (Gen.generate depth) F c u b base header inner next exit)
    (ih : Carries env σ₁ .normal σ₂ (.optional u))
    (hu : ∀ m, u = some m → m.IsStructured .expression) (hlays : base.Lays L)
    (hfits : L.Fits σ₁) : L.Fits σ₂ ∧ ∀ a, F.Enters next a → F.Knows a (L.facts σ₁) →
      ∃ a', F.Steps (.running a) (.running a') ∧ F.Enters header a' ∧ F.Knows a' (L.facts σ₂) := by
  have hheader := h.enterable.1
  rcases h.again with ⟨rfl, rfl⟩ | ⟨x, x', rfl, hi, hhead, hrun, hend⟩
  · obtain ⟨-, rfl⟩ := ih
    exact ⟨hfits, fun a ha hk => ⟨a, .refl, ha, hk⟩⟩
  · cases u with
    | none =>
      obtain ⟨-, rfl⟩ := ih
      obtain ⟨-, hstate⟩ := pure_ok hrun
      refine ⟨hfits, fun a ha hk => ?_⟩
      obtain ⟨a', hsteps, henters, hreg, hmem, -⟩ :=
        ((ha.at hhead).congr hstate.symm).br hend hheader.1 hheader.2
      exact ⟨a', hsteps, henters, hk.congr hreg hmem⟩
    | some m =>
      obtain ⟨v, s₁, h₁, hrun⟩ := bind_ok hrun
      obtain ⟨-, hs⟩ := pure_ok hrun
      obtain ⟨y, L', hy, -, hL, hsim⟩ := ih (hu m rfl) (hlays.inherits hi) hfits h₁
      obtain rfl := hL (.inr rfl)
      have hstate : y.state = x'.state := hy.trans hs.symm
      have hfn : y.fn = x'.fn := World.fn_eq_of_state hstate
      refine ⟨hsim.fits, fun a ha hk => ?_⟩
      obtain ⟨a₁, hsteps, hat, hk₁⟩ :=
        hsim.runs F (hfn ▸ hend.completes) a (ha.at hhead) hk
      obtain ⟨a', hsteps', henters, hreg, hmem, -⟩ :=
        (hat.congr hstate).br hend hheader.1 hheader.2
      exact ⟨a', hsteps.trans hsteps', henters, hk₁.congr hreg hmem⟩

theorem loopEnd_carries {m : Node} (hr : env.registry.IsDiagonal)
    (heval : m.Evaluates σ (.bool false)) : LoopCarries env (some m) u b σ .normal σ := by
  intro depth L w F header inner next exit hc hu hb hlays hfits h hexit hne
  refine ⟨hfits, fun a ha hk => ?_⟩
  exact h.test_enters (p := false) hr ⟨hexit, hne⟩ hc (fun m' hm => Option.some.inj hm ▸ heval)
    (by simp) hlays hfits ha hk

/-- One turn and then the rest of the loop. -/
theorem loopNext_carries (hr : env.registry.IsDiagonal)
    (heval : ∀ m, c = some m → m.Evaluates σ (.bool true)) (ihb : NodeCarries env b σ o₁ σ₁)
    (ho : o₁ = .normal ∨ o₁ = .continues) (ihu : Carries env σ₁ .normal σ₂ (.optional u))
    (ih : LoopCarries env c u b σ₂ o σ') : LoopCarries env c u b σ o σ' := by
  intro depth L w F header inner next exit hc hu hb hlays hfits h hexit hne
  obtain ⟨hfits₁, hturn⟩ := h.turn_reaches ihb hb hlays hfits
  obtain ⟨hfits₂, hagain⟩ := h.again_enters ihu hu hlays hfits₁
  obtain ⟨hfits', hrest⟩ := ih hc hu hb hlays hfits₂ h hexit hne
  refine ⟨hfits', fun a ha hk => ?_⟩
  obtain ⟨a₁, hsteps₁, hin₁, hk₁⟩ :=
    h.test_enters (p := true) hr ⟨hexit, hne⟩ hc heval (fun _ => rfl) hlays hfits ha hk
  have hturn := hturn a₁ hin₁ hk₁
  obtain ⟨a₂, hsteps₂, hin₂, hk₂⟩ : ∃ a', F.Steps (.running a₁) (.running a') ∧
      F.Enters next a' ∧ F.Knows a' (L.facts σ₁) := by
    rcases ho with rfl | rfl <;> exact hturn
  obtain ⟨a₃, hsteps₃, hin₃, hk₃⟩ := hagain a₂ hin₂ hk₂
  exact (hrest a₃ hin₃ hk₃).after (hsteps₁.trans (hsteps₂.trans hsteps₃))

theorem loopBreaks_carries (hr : env.registry.IsDiagonal)
    (heval : ∀ m, c = some m → m.Evaluates σ (.bool true))
    (ihb : NodeCarries env b σ .breaks σ') : LoopCarries env c u b σ .normal σ' := by
  intro depth L w F header inner next exit hc hu hb hlays hfits h hexit hne
  obtain ⟨hfits', hturn⟩ := h.turn_reaches ihb hb hlays hfits
  refine ⟨hfits', fun a ha hk => ?_⟩
  obtain ⟨a₁, hsteps₁, hin₁, hk₁⟩ :=
    h.test_enters (p := true) hr ⟨hexit, hne⟩ hc heval (fun _ => rfl) hlays hfits ha hk
  obtain ⟨a₂, hsteps₂, hout, hk₂⟩ := hturn a₁ hin₁ hk₁
  exact ⟨a₂, hsteps₁.trans hsteps₂, hout, hk₂⟩

theorem loopReturns_carries {r : Option Word} (hr : env.registry.IsDiagonal)
    (heval : ∀ m, c = some m → m.Evaluates σ (.bool true))
    (ihb : NodeCarries env b σ (.returns r) σ') : LoopCarries env c u b σ (.returns r) σ' := by
  intro depth L w F header inner next exit hc hu hb hlays hfits h hexit hne
  obtain ⟨hfits', hturn⟩ := h.turn_reaches ihb hb hlays hfits
  refine ⟨hfits', fun a ha hk => ?_⟩
  obtain ⟨a₁, hsteps₁, hin₁, hk₁⟩ :=
    h.test_enters (p := true) hr ⟨hexit, hne⟩ hc heval (fun _ => rfl) hlays hfits ha hk
  exact (hturn a₁ hin₁ hk₁).after hsteps₁

end Loops

/-- The code of a loop statement, given what happens once control has entered the loop. -/
theorem loop_simulates {z : Site} {b : BlockId} {L : Layout} (hfits : L.Fits σ')
    (hlays : w.Lays L) (hwz : w ≤ z) (hmeet : z.toWorld.HeadIn z.fn)
    (hstart : w.toWorld.ClosedIn z.fn (.br b)) (hb : z.fn.HasBlock b ∧ b ≠ entry)
    (h : ∀ F : Function, F.Completes z.fn → ∀ a, F.Enters b a → F.Knows a (L.facts σ) →
      F.Reaches w.toWorld (F.Enters z.block) (L.facts σ') a o) :
    Simulates w.toWorld z.toWorld L L σ σ' o := by
  refine ⟨List.suffix_refl L, hfits, fun _ => ⟨hlays.inherits (.of_le hwz), z.isOpen⟩, ?_⟩
  intro F hF a ha hk
  obtain ⟨a₁, hsteps, henters, hreg, hmem, -⟩ :=
    ha.br (hstart.completed hF) (hF.hasBlock hb.1) hb.2
  exact ((h F hF a₁ henters (hk.congr hreg hmem)).after hsteps).next
    fun b hb hk => ⟨b, .refl, hb.at (hmeet.completed hF), hk⟩

theorem whileLoop_carries {c b : Node} (hr : env.registry.IsDiagonal)
    (hf : n.form = .whileLoop c b) (ih : LoopCarries env (some c) none b σ o σ') :
    NodeCarries env n σ o σ' := by
  intro q depth L w v s hn hlays hfits h
  obtain ⟨hc, hb⟩ := hn.of_whileLoop hf
  obtain ⟨d, h⟩ := generate_standard_ok hr (congrArg Form.kind hf) h
  obtain ⟨z, hz, hwz, hmeet, header, inner, hstart, hloop⟩ := whileLoop_shape (w := w) hf
    (pure_yields hr hc) (structured_sound hr hb) v s h
  have carried {F : Function} (hF : F.Completes z.fn) := ih (fun m hm => Option.some.inj hm ▸ hc)
    (by simp) hb hlays hfits (hloop.completed hF) (hmeet.completed hF).enterable.1 hmeet.ne_entry
  refine ⟨z.toWorld, L, hz, hwz.1, fun _ => rfl, ?_⟩
  exact loop_simulates (carried z.completes_refl).1 hlays hwz hmeet hstart hloop.enterable.1
    fun F hF => (carried hF).2

/-- A first turn without test. -/
theorem doWhile_carries {c b : Node} {σ₁ : Store} {o₁ : Outcome} (hr : env.registry.IsDiagonal)
    (hf : n.form = .doWhile b c) (ihb : NodeCarries env b σ o₁ σ₁)
    (ho : o₁ = .normal ∨ o₁ = .continues) (ih : LoopCarries env (some c) none b σ₁ o σ') :
    NodeCarries env n σ o σ' := by
  intro q depth L w v s hn hlays hfits h
  obtain ⟨hc, hb⟩ := hn.of_doWhile hf
  obtain ⟨d, h⟩ := generate_standard_ok hr (congrArg Form.kind hf) h
  obtain ⟨z, hz, hwz, hmeet, latch, inner, hstart, hloop⟩ := doWhile_shape (w := w) hf
    (structured_sound hr hb) (pure_yields hr hc) v s h
  have hfits₁ := (hloop.turn_reaches ihb hb hlays hfits).1
  have carried {F : Function} (hF : F.Completes z.fn) := ih (fun m hm => Option.some.inj hm ▸ hc)
    (by simp) hb hlays hfits₁ (hloop.completed hF) (hmeet.completed hF).enterable.1 hmeet.ne_entry
  refine ⟨z.toWorld, L, hz, hwz.1, fun _ => rfl, ?_⟩
  refine loop_simulates (carried z.completes_refl).1 hlays hwz hmeet hstart hloop.enterable.2.1 ?_
  intro F hF a ha hk
  have hturn := ((hloop.completed hF).turn_reaches ihb hb hlays hfits).2 a ha hk
  obtain ⟨a₁, hsteps, henters, hk₁⟩ : ∃ a', F.Steps (.running a) (.running a') ∧
      F.Enters latch a' ∧ F.Knows a' (L.facts σ₁) := by
    rcases ho with rfl | rfl <;> exact hturn
  exact ((carried hF).2 a₁ henters hk₁).after hsteps

/-- A first turn that is the last. -/
theorem doWhileStop_carries {c b : Node} {o₁ : Outcome} (hr : env.registry.IsDiagonal)
    (hf : n.form = .doWhile b c) (ihb : NodeCarries env b σ o₁ σ')
    (ho : (o₁ = .breaks ∧ o = .normal) ∨ ∃ r, o₁ = .returns r ∧ o = .returns r) :
    NodeCarries env n σ o σ' := by
  intro q depth L w v s hn hlays hfits h
  obtain ⟨hc, hb⟩ := hn.of_doWhile hf
  obtain ⟨d, h⟩ := generate_standard_ok hr (congrArg Form.kind hf) h
  obtain ⟨z, hz, hwz, hmeet, latch, inner, hstart, hloop⟩ := doWhile_shape (w := w) hf
    (structured_sound hr hb) (pure_yields hr hc) v s h
  refine ⟨z.toWorld, L, hz, hwz.1, fun _ => rfl, ?_⟩
  refine loop_simulates (hloop.turn_reaches ihb hb hlays hfits).1 hlays hwz hmeet hstart
    hloop.enterable.2.1 ?_
  intro F hF a ha hk
  have hturn := ((hloop.completed hF).turn_reaches ihb hb hlays hfits).2 a ha hk
  rcases ho with ⟨rfl, rfl⟩ | ⟨r, rfl, rfl⟩
  · exact hturn
  · exact hturn

/-- What the head of a `for` loop declares goes out of scope behind the loop. -/
theorem forLoop_carries {init c u : Option Node} {b : Node} {σ₁ : Store}
    (hr : env.registry.IsDiagonal) (hf : n.form = .forLoop init c u b)
    (ihi : Carries env σ .normal σ₁ (.optional init)) (ih : LoopCarries env c u b σ₁ o σ') :
    NodeCarries env n σ o (σ'.keep σ.length) := by
  intro q depth L w v s hn hlays hfits h
  obtain ⟨hi, hc, hu, hb⟩ := hn.of_forLoop hf
  obtain ⟨d, h⟩ := generate_standard_ok hr (congrArg Form.kind hf) h
  have h : forLoop (Gen.generate d) n env w.state = .ok v s := h
  rw [forLoop_eq _ hf] at h
  obtain ⟨fr, s₁, h₁, h⟩ := bind_ok h
  cases h₁
  obtain ⟨u₁, s₁, h₁, h⟩ := bind_ok h
  -- the first part
  obtain ⟨x, L₁, rfl, hwx, hsim⟩ : ∃ (x : Site) (L₁ : Layout), x.state = s₁ ∧ w.Later x.toWorld ∧
      Simulates w.toWorld x.toWorld L L₁ σ σ₁ .normal := by
    cases init with
    | none =>
      obtain ⟨-, rfl⟩ := ihi
      obtain ⟨-, rfl⟩ := pure_ok h₁
      refine ⟨w, L, rfl, .refl _, List.suffix_refl L, hfits, fun _ => ⟨hlays, w.isOpen⟩, ?_⟩
      exact fun F _ a ha hk => ⟨a, .refl, ha, hk⟩
    | some m =>
      obtain ⟨v', s₂, h₂, h₁⟩ := bind_ok h₁
      obtain ⟨-, rfl⟩ := pure_ok h₁
      obtain ⟨x, L₁, hx, hwx, -, hsim⟩ := ihi (hi m rfl) hlays hfits h₂
      exact ⟨⟨x, (hsim.ends rfl).2⟩, L₁, hx, hwx, hsim⟩
  obtain ⟨hlays₁, -⟩ := hsim.ends rfl
  -- the loop
  obtain ⟨u₂, s₂, h₂, h⟩ := bind_ok h
  obtain ⟨z, rfl, hxz, hmeet, header, inner, next, hstart, hloop⟩ := forRest_shape (w := x)
    (fun m hm => pure_yields hr (hc m hm)) (fun m hm => structured_sound hr (hu m hm))
    (structured_sound hr hb) u₂ s₂ h₂
  have carried {F : Function} (hF : F.Completes z.fn) := ih hc hu hb hlays₁ hsim.fits
    (hloop.completed hF) (hmeet.completed hF).enterable.1 hmeet.ne_entry
  have hsim' := loop_simulates (carried z.completes_refl).1 hlays₁ hxz hmeet hstart
    hloop.enterable.1 fun F hF => (carried hF).2
  -- the names of the head go out of scope
  have hall : Simulates w.toWorld z.toWorld L L₁ σ σ' o := by
    refine ⟨hsim.layout, hsim'.fits, hsim'.ends, ?_⟩
    intro F hF a ha hk
    obtain ⟨a₁, hsteps, hat, hk₁⟩ := hsim.runs F (hF.trans hxz.1.completes) a ha hk
    exact ((hsim'.runs F hF a₁ hat hk₁).within hwx).after hsteps
  obtain ⟨y, hy, hm, hwy⟩ := exists_restored (hwx.trans hxz.1)
  refine ⟨y, L, ?_, hwy.1, fun _ => rfl,
    hall.restored hfits.length_eq (hlays.inherits (.of_le hwy)) hm⟩
  rw [hy]
  cases h
  rfl

/-! ## Executions -/

theorem executes_carries (hr : env.registry.IsDiagonal) {task : Task}
    (h : Executes task σ o σ') : Carries env σ o σ' task := by
  induction h with
  | assign hf ht hc he =>
    exact NodeCarries.of_steers (fun hn => assignment_steers hr hf ht (hn.of_assign hf).1 hc he)
      fun _ _ => Store.length_set _ _ _
  | compound hf ht hc he ha =>
    refine NodeCarries.of_steers (fun hn => ?_) fun _ _ => Store.length_set _ _ _
    obtain ⟨hpure, hop⟩ := hn.of_assign hf
    exact compound_steers hr hf (hop _ rfl) ht hpure hc he ha
  | update hf ht hc =>
    exact NodeCarries.of_steers (fun _ => update_steers hr hf ht hc) fun _ _ => Store.length_set _ _ _
  | declare hf he =>
    refine NodeCarries.of_steers (fun hn => ?_) fun hn hp => ?_
    · obtain ⟨-, ht, hpure⟩ := hn.of_declaration hf
      exact declaration_steers hr hf ht (hpure _ rfl) he
    · rcases (hn.of_declaration hf).1 with rfl | rfl <;> simp at hp
  | declareZero hf hz =>
    refine NodeCarries.of_steers (fun _ => zeroDeclaration_steers hr hf hz) fun hn hp => ?_
    rcases (hn.of_declaration hf).1 with rfl | rfl <;> simp at hp
  | expressionStatement hf _ ih => exact expressionStatement_carries hr hf ih
  | block hf _ ih => exact block_carries hr hf ih
  | ifTrue hf hc _ ih => exact ifElse_carries (p := true) hr hf hc ih
  | ifFalse hf hc _ ih => exact ifElse_carries (p := false) hr hf hc ih
  | whileLoop hf _ ih => exact whileLoop_carries hr hf ih
  | doWhile hf _ ho _ ihb ih => exact doWhile_carries hr hf ihb ho ih
  | doWhileBreaks hf _ ih => exact doWhileStop_carries hr hf ih (.inl ⟨rfl, rfl⟩)
  | doWhileReturns hf _ ih => exact doWhileStop_carries hr hf ih (.inr ⟨_, rfl, rfl⟩)
  | forLoop hf _ _ ihi ih => exact forLoop_carries hr hf ihi ih
  | ret hf => exact ret_carries hr hf
  | retValue hf he => exact retValue_carries hr hf he
  | breakLoop hf => exact breakLoop_carries hr hf
  | continueLoop hf => exact continueLoop_carries hr hf
  | empty hf => exact empty_carries hr hf
  | nil => exact nil_carries
  | cons _ _ ihn ihr => exact cons_carries ihn ihr
  | consStop _ ho ih => exact consStop_carries hr ih ho
  | none => exact ⟨rfl, rfl⟩
  | some _ ih => exact ih
  | loopEnd he => exact loopEnd_carries hr he
  | loopNext he _ ho _ _ ihb ihu ih => exact loopNext_carries hr he ihb ho ihu ih
  | loopBreaks he _ ih => exact loopBreaks_carries hr he ih
  | loopReturns he _ ih => exact loopReturns_carries hr he ih

end Gen

end TypedLowering
