import TypedLowering.Proofs.Flow.Expression

/-!
Statements keep the body valid. They may end the current block; what a loop adds is followed from
the world before it, and the blocks that `break` and `continue` jump to are landings of the loop.
-/
namespace TypedLowering
set_option autoImplicit false
open Ssa Ssa.Function

namespace Gen

variable {env : Env} {generate : Generate} {n : Node}

/-- A node that is generated as a statement: it leaves the scope and the loops alone. -/
def Runs (env : Env) (generate : Generate) (n : Node) : Prop :=
  ∀ w : Site, Spec env w.toWorld (generate n) fun _ _ => True

/-- A node that may bring names into scope and leaves the block open, as the head of a loop does. -/
def Introduces (env : Env) (generate : Generate) (n : Node) : Prop :=
  ∀ (w : Site) v s, generate n env w.state = .ok v s → ∃ x : Site, x.state = s ∧ w.Later x.toWorld

theorem Yields.introduces (h : Yields env generate n) : Introduces env generate n := by
  intro w v s hs
  obtain ⟨x, hx, hl, -⟩ := h w v s hs
  exact ⟨x, hx, Site.later hl⟩

theorem Introduces.settles (h : Introduces env generate n) : Settles env generate n := by
  intro w v s hs
  obtain ⟨x, hx, hl⟩ := h w v s hs
  exact ⟨x.toWorld, hx, hl⟩

theorem Runs.settles (h : Runs env generate n) : Settles env generate n := by
  intro w v s hs
  obtain ⟨x, hx, hl, -⟩ := h w v s hs
  exact ⟨x, hx, World.later hl⟩

/-! ## Declarations and blocks -/

theorem variableDeclaration_later (h : ∀ name init mutable,
      n.form = .variableDeclaration name (some init) mutable → Yields env generate init)
    {w : Site} {v : Value} {s : GenState}
    (hs : variableDeclaration generate n env w.state = .ok v s) :
    ∃ x : Site, x.state = s ∧ w.Later x.toWorld := by
  unfold variableDeclaration at hs
  cases hn : n.form with
  | variableDeclaration name init mutable =>
    rw [hn] at hs
    obtain ⟨t, s₁, h₁, hs⟩ := bind_ok hs
    cases h₁
    cases init with
    | some init =>
      obtain ⟨x, s₂, h₂, hs⟩ := bind_ok hs
      obtain ⟨y, rfl, hy, hx⟩ := generateOperand_spec (h name init mutable hn) x s₂ h₂
      cases mutable with
      | true =>
        obtain ⟨u, s₃, h₃, hs⟩ := bind_ok hs
        cases hs
        obtain ⟨z, hz, hl⟩ := bindLocal_later hx h₃
        exact ⟨z, hz, (Site.later hy).trans hl⟩
      | false =>
        cases hs
        obtain ⟨z, hz, hl, -⟩ := exists_bound y name (.constant x _) hx
        exact ⟨z, hz, (Site.later hy).trans hl⟩
    | none =>
      obtain ⟨lowered, s₂, h₂, hs⟩ := bind_ok hs
      obtain ⟨y, rfl, hy, -⟩ := layout_spec (w := w) lowered s₂ h₂
      cases hz : Constant.zero lowered with
      | none =>
        rw [hz] at hs
        obtain ⟨_, _, h₃, _⟩ := bind_ok hs
        exact (unsupported_ok h₃).elim
      | some zero =>
        rw [hz] at hs
        obtain ⟨x, s₃, h₃, hs⟩ := bind_ok hs
        obtain ⟨y', rfl, hy', hx⟩ := emitConst_spec x s₃ h₃
        obtain ⟨u, s₄, h₄, hs⟩ := bind_ok hs
        cases hs
        obtain ⟨z, hz, hl⟩ := bindLocal_later hx h₄
        exact ⟨z, hz, (Site.later (hy.trans hy')).trans hl⟩
  | _ =>
    rw [hn] at hs
    exact (internal_ok hs).elim

theorem expressionStatement_spec {w : Site}
    (h : ∀ e, n.form = .expressionStatement e → Yields env generate e) :
    Spec env w (expressionStatement generate n) fun _ _ => True := by
  unfold expressionStatement
  split
  · next e hn => exact .bind (h e hn w) fun _ _ _ _ => .pure trivial
  · exact wrongForm_spec

/-- Statements that nothing leads to get a block where all is available that was. -/
theorem openBlock_later {w : World} {u : Unit} {s : GenState}
    (h : openBlock env w.state = .ok u s) : ∃ x : Site, x.state = s ∧ w ≤ x.toWorld := by
  have hspec : Onward env w w openBlock fun _ y => y.IsOpen := by
    refine .read rfl ?_
    rw [World.state_eq, w.state.query_eq w.current, isTerminated_eq]
    cases ho : w.fn.exit w.state.frame.block with
    | none => exact .pure (le_refl w) ho
    | some t =>
      refine .bind (.of_spec (le_refl w) appendBlock_world) ?_
      rintro b y hy ⟨-, hv, -⟩
      exact fun a s hs => by
        obtain ⟨z, hz, hwz, -, hopen⟩ := positionAt_onward hy hv a s hs
        exact ⟨z, hz, hwz, hopen⟩
  obtain ⟨x, hx, hwx, hopen⟩ := hspec u s h
  exact ⟨⟨x, hopen⟩, hx, hwx⟩

theorem statements_later {body : List Node} (hb : ∀ n ∈ body, Settles env generate n) {w : World}
    {u : Unit} {s : GenState} (h : statements generate body env w.state = .ok u s) :
    ∃ x : World, x.state = s ∧ w.Later x := by
  induction body generalizing w with
  | nil =>
    cases h
    exact ⟨w, rfl, .refl w⟩
  | cons n rest ih =>
    obtain ⟨u₁, s₁, h₁, h⟩ := bind_ok h
    obtain ⟨x, rfl, hx⟩ := openBlock_later h₁
    obtain ⟨v, s₂, h₂, h⟩ := bind_ok h
    obtain ⟨y, rfl, hy⟩ := hb n List.mem_cons_self x v s₂ h₂
    obtain ⟨z, hz, hyz⟩ := ih (fun m hm => hb m (List.mem_cons_of_mem n hm)) h
    exact ⟨z, hz, (World.later hx).trans (hy.trans hyz)⟩

/-- The scope of an earlier world may be restored. -/
theorem exists_restored {w x : World} (h : w.Later x) :
    ∃ y : World, y.state = ⟨x.state.unit, x.frame.within w.frame.scope⟩ ∧ x.Moves y x.block ∧
      w ≤ y := by
  obtain ⟨y, hy, hfn, hA, hl⟩ := exists_scoped x w.frame.scope
    fun name binding hn => h.has (w.fits.scope name binding hn)
  have hscope : y.frame.scope = w.frame.scope := congrArg (·.frame.scope) hy
  exact ⟨y, hy, ⟨hfn, hA, congrArg (·.frame.block) hy⟩, h.trans hl, hscope⟩

theorem block_spec {w : World}
    (h : ∀ body, n.form = .block body → ∀ m ∈ body, Settles env generate m) :
    Spec env w (block generate n) fun _ _ => True := by
  unfold block
  split
  · next body hn =>
    refine .read rfl ?_
    intro v s hs
    obtain ⟨u, s₁, h₁, hs⟩ := bind_ok hs
    obtain ⟨x, rfl, hx⟩ := statements_later (h body hn) h₁
    obtain ⟨y, hy, -, hwy⟩ := exists_restored hx
    cases hs
    exact ⟨y, hy, hwy, trivial⟩
  · exact .internal

/-! ## Branches -/

/-- The code of a statement as a block or more of its own: it begins at `y` and ends at `y'`, and
unless it jumps away control passes to `target`. -/
structure Passage (env : Env) (F : Function) (m : Gen Value) (target : BlockId) (y : Site)
    (y' : World) : Prop where
  head : y.toWorld.HeadIn F
  runs : ∃ v, m env y.state = .ok v y'.state
  completes : F.Completes y'.fn
  back : y'.IsOpen → y'.ClosedIn F (.br target)

theorem Passage.completed {F g : Function} {m : Gen Value} {target : BlockId} {y : Site}
    {y' : World} (h : Passage env g m target y y') (hF : F.Completes g) :
    Passage env F m target y y' where
  head := h.head.completed hF
  runs := h.runs
  completes := hF.trans h.completes
  back := fun ho => (h.back ho).completed hF

theorem branchIfOpen_onward {w x : World} {b : BlockId} (hx : w ≤ x) (hb : w.Landing x b) :
    Onward env w x (branchIfOpen b) fun _ y =>
      w.Keeps x y ∧ (x.IsOpen → x.ClosedIn y.fn (.br b)) := by
  refine .read rfl ?_
  rw [World.state_eq, x.state.query_eq x.current, isTerminated_eq]
  cases ho : x.fn.exit x.state.frame.block with
  | some t =>
    refine .pure hx ⟨.refl w x, fun hopen => ?_⟩
    cases hopen.symm.trans ho
  | none =>
    intro u s h
    obtain ⟨y, hy, hwy, hend⟩ := terminate_onward (x := ⟨x, ho⟩) hx (by simp [Terminator.uses])
      (by simpa [Terminator.successors] using .inl hb) u s h
    exact ⟨y, hy, hwy, .of_ends hend, fun _ => hend.closedIn⟩

/-- One arm of a branch, which goes on to the block where the arms meet. -/
theorem Onward.bind_arm {β : Type} {w : World} {x : Site} {b : BlockId} {f : Unit → Gen β}
    {R : β → World → Prop} (hx : w ≤ x.toWorld) (hn : Runs env generate n)
    (hb : w.Landing x.toWorld b) (hhead : x.toWorld.HeadIn x.fn)
    (hf : ∀ y y', w ≤ y → w.Keeps x.toWorld y → Passage env y.fn (generate n) b x y' →
      Onward env w y (f ()) R) :
    Onward env w x.toWorld (generate n >>= fun _ => branchIfOpen b >>= f) R := by
  refine .bind (.of_spec hx (hn x).track) fun v y hy hq => ?_
  obtain ⟨hxy, -, hrun⟩ := hq
  have hkeep : w.Keeps x.toWorld y := .of_later (World.later hxy)
  refine .bind (branchIfOpen_onward hy (hkeep.landing hb)) fun _ z hz hk => ?_
  have hall := hkeep.trans hk.1
  refine hf z y hz hall ⟨hhead.completed hall.completes, ⟨v, hrun⟩, hk.1.completes, hk.2⟩

/-- The code of a branch: a test at the end of `x`, then one of two ways to `z`. -/
def Fork (env : Env) (generate : Generate) (cond thenBranch : Node) (elseBranch : Option Node)
    (w z : Site) : Prop :=
  ∃ (c : ValueId) (x y : Site) (y' : World) (other : BlockId),
    condition generate cond env w.state = .ok c x.state ∧
    x.toWorld.ClosedIn z.fn (.condBr c y.block other) ∧ w.toWorld ≤ y.toWorld ∧
    Passage env z.fn (generate thenBranch) z.block y y' ∧ z.toWorld.HeadIn z.fn ∧
    match elseBranch with
    | none => other = z.block
    | some e => ∃ (u : Site) (u' : World), other = u.block ∧ w.toWorld ≤ u.toWorld ∧
      Passage env z.fn (generate e) z.block u u'

theorem ifElse_shape {w : Site} {cond thenBranch : Node} {elseBranch : Option Node}
    (hn : n.form = .ifElse cond thenBranch elseBranch) (hcond : Yields env generate cond)
    (hthen : Runs env generate thenBranch)
    (helse : ∀ e, elseBranch = some e → Runs env generate e) :
    Spec env w (ifElse generate n) fun _ z =>
      Fork env generate cond thenBranch elseBranch w z := by
  unfold ifElse
  rw [hn]
  refine .of_onward (.bind_site (le_refl _) (condition_spec hcond).track fun c x hx hq => ?_)
  obtain ⟨hc, hrun⟩ := hq
  refine .rebase hx ?_
  refine .bind_block (le_refl _) rfl fun thenBlock y₁ hy₁ hb₁ hl₁ hthenB _ _ => ?_
  cases elseBranch with
  | none =>
    refine .bind_block hy₁ hl₁ fun merge y₂ hy₂ hb₂ hl₂ hmerge hnew _ => ?_
    have hne := hthenB.ne_of_added hnew
    have hthenB := hthenB.later hy₂.1
    have hxy₂ : x ≤ y₂ := hy₁.trans hy₂
    refine .bind (terminate_onward hxy₂ ?_ ?_) fun _ y₃ hy₃ hend => ?_
    · simpa [Terminator.uses] using Site.has hxy₂ hc
    · simpa [Terminator.successors] using ⟨.inl hthenB.toLanding, .inl hmerge.toLanding⟩
    refine .bind_position hy₃ (hthenB.ends hend) fun y₄ hy₄ hmove => ?_
    have hmerge := (hmerge.ends hend).moves hmove hne
    have htest := hend.closedIn.stays (hb₁.trans hb₂) (Site.later hxy₂).completes
    have hhead := (hthenB.ends hend).headIn hmove
    refine .bind_arm hy₄ hthen hmerge.toLanding hhead fun y₅ y' hy₅ hk hpass => ?_
    refine .bind_position hy₅ (hk.vacant hmerge) fun z hz hmove' => .pure hz ⟨z, rfl, ?_⟩
    have hF : z.fn.Completes y₃.fn := hmove'.completes.trans (hk.completes.trans hmove.completes)
    refine ⟨c, x, y₄, y', z.block, hrun, ?_, hx.trans hy₄, ?_, (hk.vacant hmerge).headIn hmove',
      rfl⟩
    · rw [hmove.block, hmove'.block]
      exact htest.completed hF
    · rw [hmove'.block]
      exact hpass.completed hmove'.completes
  | some e =>
    refine .bind_block hy₁ hl₁ fun elseBlock y₂ hy₂ hb₂ hl₂ helseB hnewE _ => ?_
    refine .bind_block (hy₁.trans hy₂) hl₂ fun merge y₃ hy₃ hb₃ hl₃ hmerge hnewM _ => ?_
    have hne₁ := hthenB.ne_of_added hnewE
    have hne₂ := (hthenB.later hy₂.1).ne_of_added hnewM
    have hne₃ := helseB.ne_of_added hnewM
    have hthenB := (hthenB.later hy₂.1).later hy₃.1
    have helseB := helseB.later hy₃.1
    have hxy₃ : x ≤ y₃ := hy₁.trans (hy₂.trans hy₃)
    refine .bind (terminate_onward hxy₃ ?_ ?_) fun _ y₄ hy₄ hend => ?_
    · simpa [Terminator.uses] using Site.has hxy₃ hc
    · simpa [Terminator.successors] using ⟨.inl hthenB.toLanding, .inl helseB.toLanding⟩
    refine .bind_position hy₄ (hthenB.ends hend) fun y₅ hy₅ hmove => ?_
    have helseB := (helseB.ends hend).moves hmove hne₁
    have hmerge := (hmerge.ends hend).moves hmove hne₂
    have htest := hend.closedIn.stays (hb₁.trans (hb₂.trans hb₃)) (Site.later hxy₃).completes
    have hhead := (hthenB.ends hend).headIn hmove
    refine .bind_arm hy₅ hthen hmerge.toLanding hhead fun y₆ y' hy₆ hk hpass => ?_
    refine .bind_position hy₆ (hk.vacant helseB) fun y₇ hy₇ hmove' => ?_
    have hmerge := (hk.vacant hmerge).moves hmove' hne₃
    have hhead' := (hk.vacant helseB).headIn hmove'
    refine .bind_arm hy₇ (helse e rfl) hmerge.toLanding hhead' fun y₈ u' hy₈ hk' hpass' => ?_
    refine .bind_position hy₈ (hk'.vacant hmerge) fun z hz hmove'' => .pure hz ⟨z, rfl, ?_⟩
    have hF₆ : z.fn.Completes y₆.fn :=
      hmove''.completes.trans (hk'.completes.trans hmove'.completes)
    have hF₄ : z.fn.Completes y₄.fn := hF₆.trans (hk.completes.trans hmove.completes)
    refine ⟨c, x, y₅, y', elseBlock, hrun, ?_, hx.trans hy₅, ?_, (hk'.vacant hmerge).headIn hmove'',
      y₇, u', hmove'.block.symm, hx.trans hy₇, ?_⟩
    · rw [hmove.block]
      exact htest.completed hF₄
    · rw [hmove''.block]
      exact hpass.completed hF₆
    · rw [hmove''.block]
      exact hpass'.completed hmove''.completes

theorem Spec.world {α : Type} {w : Site} {m : Gen α} {Q : α → Site → Prop} (h : Spec env w m Q) :
    Spec env w.toWorld m fun _ _ => True := by
  intro a s hs
  obtain ⟨x, hx, hwx, -⟩ := h a s hs
  exact ⟨x.toWorld, hx, hwx, trivial⟩

theorem ifElse_spec {w : Site} (h : ∀ cond thenBranch elseBranch,
    n.form = .ifElse cond thenBranch elseBranch → Yields env generate cond ∧
      Runs env generate thenBranch ∧ ∀ e, elseBranch = some e → Runs env generate e) :
    Spec env w.toWorld (ifElse generate n) fun _ _ => True := by
  cases hn : n.form with
  | ifElse cond thenBranch elseBranch =>
    obtain ⟨hcond, hthen, helse⟩ := h cond thenBranch elseBranch hn
    exact (ifElse_shape hn hcond hthen helse).world
  | _ =>
    unfold ifElse
    rw [hn]
    exact .internal

/-! ## Loops -/

/-- A loop may be entered when its targets are landings. -/
theorem exists_pushed {w : World} {x : Site} {t : LoopTarget} (hx : w ≤ x.toWorld)
    (hb : w.Landing x.toWorld t.breakTo) (hc : w.Landing x.toWorld t.continueTo) :
    ∃ y : Site, y.state = ⟨x.state.unit, x.frame.inLoop t⟩ ∧
      x.toWorld.Moves y.toWorld x.block := by
  refine ⟨⟨⟨⟨x.state.unit, x.frame.inLoop t⟩, x.fn, x.heads, x.current, x.flow, ?_⟩, x.isOpen⟩,
    rfl, ⟨rfl, rfl, rfl⟩⟩
  refine { inBlock := x.fits.inBlock, scope := x.fits.scope, this := x.fits.this, loops := ?_ }
  intro t' ht
  rcases List.mem_cons.mp ht with rfl | ht
  · exact ⟨hb.target hx, hc.target hx⟩
  · exact x.fits.loops t' ht

theorem inherits_pushed {x y : World} {t : LoopTarget}
    (hy : y.state = ⟨x.state.unit, x.frame.inLoop t⟩) (hm : x.Moves y x.block) :
    x.Inherits y where
  scope := congrArg (·.frame.scope) hy
  ret := congrArg (·.frame.returnType) hy
  has := by
    intro v hv
    show y.fn.Known y.heads y.block v
    rw [hm.fn, hm.heads, hm.block]
    exact hv

/-- A loop is left again: nothing but its own landings was jumped to on its account. -/
theorem exists_popped {w x : World} {t : LoopTarget} (hx : w ≤ x) {y z : World}
    (hb : ¬ w.fn.HasBlock t.breakTo) (hc : ¬ w.fn.HasBlock t.continueTo)
    (hy : y.state = ⟨x.state.unit, x.frame.inLoop t⟩)
    (hm : x.Moves y x.block) (hyz : y ≤ z) :
    ∃ z' : World, z'.state = ⟨z.state.unit, z.frame.outOfLoop⟩ ∧
      z.Moves z' z.block ∧ w ≤ z' := by
  have hframe : y.frame = x.frame.inLoop t := congrArg (·.frame) hy
  have hmod : y.module = x.module := congrArg (·.unit.module) hy
  have hfun : y.frame.function = x.frame.function := by
    rw [hframe]
    rfl
  have htargets {c : BlockId} (hw : w.fn.HasBlock c) (ht : y.frame.IsTarget c) :
      w.frame.IsTarget c := by
    rw [hframe] at ht
    obtain ⟨t', ht', hct⟩ := ht
    rcases List.mem_cons.mp ht' with rfl | ht'
    · rcases hct with rfl | rfl
      · exact (hb hw).elim
      · exact (hc hw).elim
    · exact hx.1.isTarget_iff.mp ⟨t', ht', hct⟩
  have hgrows : w.fn.Grows z.fn w.block w.frame.IsTarget := by
    have hg := hyz.1.grows
    rw [hm.fn, hm.block] at hg
    exact hx.1.grows_trans hg fun c => htargets
  obtain ⟨z', hz', hfn, hA, hl, hs⟩ := w.exists_later
    (s := ⟨z.state.unit, z.frame.outOfLoop⟩) (g := z.fn)
    (A := z.heads)
    (by
      show z.frame.outOfLoop = w.frame.at z.block
      rw [hyz.1.frame, hyz.2, hframe, hx.1.frame, hx.2]
      rfl)
    (by
      show z.module.function? w.frame.function = _
      rw [← hx.1.function_eq, ← hfun, ← hyz.1.function_eq]
      exact z.current)
    z.flow
    (by
      have ho := hyz.1.others
      rw [hmod, hfun, hx.1.function_eq] at ho
      exact hx.1.others.trans ho)
    hgrows
    (by
      intro c hw
      have hxc := hx.1.grows.hasBlock hw
      rw [hyz.1.heads c (hm.hasBlock hxc), hm.heads]
      exact hx.1.heads c hw)
    z.inBlock
    (by
      intro v hv
      refine hyz.1.mono v ?_
      show y.fn.Local y.heads y.block v
      rw [hm.fn, hm.heads, hm.block]
      exact hx.1.mono v hv)
    (by
      refine hx.1.apart_trans ?_
      have ha := hyz.1.apart
      rw [hm.fn, hm.block] at ha
      exact ha)
  exact ⟨z', hz', ⟨hfn, hA, congrArg (·.frame.block) hz'⟩, hl, hs⟩

/-- The body of a loop as blocks of its own, which begin at `inner` and go on to `next`. -/
def Turn (env : Env) (F : Function) (m : Gen Value) (w : World) (target : LoopTarget)
    (next inner : BlockId) : Prop :=
  ∃ (y : Site) (y' : World), y.block = inner ∧ w.Inherits y.toWorld ∧
    y.frame.loops = target :: w.frame.loops ∧ Passage env F m next y y'

theorem Turn.completed {F g : Function} {m : Gen Value} {w : World} {target : LoopTarget}
    {next inner : BlockId} (h : Turn env g m w target next inner) (hF : F.Completes g) :
    Turn env F m w target next inner := by
  obtain ⟨y, y', hb, hi, hl, hpass⟩ := h
  exact ⟨y, y', hb, hi, hl, hpass.completed hF⟩

/-- The body of a loop, generated where its targets are landings. -/
theorem loopBody_onward {w : World} {x : Site} {body : Node} {target : LoopTarget} {next : BlockId}
    (hx : w ≤ x.toWorld) (hn : Runs env generate body) (hb : w.Landing x.toWorld target.breakTo)
    (hc : w.Landing x.toWorld target.continueTo) (hnext : w.Landing x.toWorld next)
    (hhead : x.toWorld.HeadIn x.fn) :
    Onward env w x.toWorld (loopBody generate body target next) fun _ y =>
      w.Keeps x.toWorld y ∧ Turn env y.fn (generate body) w target next x.block := by
  intro u s h
  obtain ⟨u₁, s₁, h₁, h⟩ := bind_ok h
  obtain ⟨y, hy, hpush⟩ := exists_pushed hx hb hc
  obtain ⟨v, s₂, h₂, h⟩ := bind_ok h
  have hs₁ : y.state = s₁ := by
    rw [hy]
    cases h₁
    rfl
  rw [← hs₁] at h₂
  obtain ⟨z, rfl, hyz, -⟩ := hn y v s₂ h₂
  obtain ⟨u₃, s₃, h₃, h⟩ := bind_ok h
  obtain ⟨z', hz', hpop, hwz⟩ := exists_popped hx hb.isNew hc.isNew hy hpush hyz
  have hs₃ : z'.state = s₃ := by
    rw [hz']
    cases h₃
    rfl
  rw [← hs₃] at h
  have hkeep : w.Keeps x.toWorld z' :=
    (World.Keeps.of_same hpush).trans ((World.Keeps.of_later hyz.1).trans (.of_same hpop))
  obtain ⟨z'', hz'', hwz'', hk, hback⟩ := branchIfOpen_onward hwz (hkeep.landing hnext) u s h
  refine ⟨z'', hz'', hwz'', hkeep.trans hk, y, z, hpush.block, ?_, ?_, ?_⟩
  · exact (World.Inherits.of_le hx).trans (inherits_pushed hy hpush)
  · rw [show y.frame = x.frame.inLoop target from congrArg (·.frame) hy, ← hx.1.loops_eq]
    rfl
  · have hcompletes : z''.fn.Completes z.fn := hk.completes.trans hpop.completes
    refine ⟨?_, ⟨v, h₂⟩, hcompletes, fun ho => ?_⟩
    · have hF := hcompletes.trans (hyz.1.completes.trans hpush.completes)
      exact (hhead.completed hF).moves hpush
    · have hopen : z'.IsOpen := by
        show z'.fn.exit z'.block = none
        rw [hpop.fn, hpop.block]
        exact ho
      exact (hback hopen).stays hpop.stays hpop.completes

/-- Jumps to one of two landings. -/
theorem terminate_condBr {w : World} {x : Site} {c : ValueId} {b e : BlockId} (hx : w ≤ x.toWorld)
    (hc : x.Has c) (hb : w.Landing x.toWorld b) (he : w.Landing x.toWorld e) :
    Onward env w x.toWorld (terminate (.condBr c b e)) fun _ y =>
      x.toWorld.Ends y (.condBr c b e) :=
  terminate_onward hx (by simpa [Terminator.uses] using hc)
    (by simpa [Terminator.successors] using ⟨.inl hb, .inl he⟩)

theorem terminate_br {w : World} {x : Site} {b : BlockId} (hx : w ≤ x.toWorld)
    (hb : w.Landing x.toWorld b) :
    Onward env w x.toWorld (terminate (.br b)) fun _ y => x.toWorld.Ends y (.br b) :=
  terminate_onward hx (by simp [Terminator.uses])
    (by simpa [Terminator.successors] using .inl hb)

/-- The code that ends the block where a loop is tested. -/
def forTest (generate : Generate) (cond : Option Node) (body exit : BlockId) : Gen Unit :=
  match cond with
  | some cond => do
    let c ← condition generate cond
    terminate (.condBr c body exit)
  | none => terminate (.br body)

/-- The test of a loop in a block of its own, from where control passes to `inner` or `exit`. -/
def Test (env : Env) (generate : Generate) (F : Function) (cond : Option Node) (w : World)
    (header inner exit : BlockId) : Prop :=
  ∃ h : Site, h.block = header ∧ w.Inherits h.toWorld ∧ h.toWorld.HeadIn F ∧
    match cond with
    | none => h.toWorld.ClosedIn F (.br inner)
    | some m => ∃ (c : ValueId) (x : Site), condition generate m env h.state = .ok c x.state ∧
      x.toWorld.ClosedIn F (.condBr c inner exit)

theorem Test.completed {F g : Function} {cond : Option Node} {w : World}
    {header inner exit : BlockId} (h : Test env generate g cond w header inner exit)
    (hF : F.Completes g) : Test env generate F cond w header inner exit := by
  obtain ⟨x, hb, hi, hhead, htest⟩ := h
  refine ⟨x, hb, hi, hhead.completed hF, ?_⟩
  cases cond with
  | none => exact htest.completed hF
  | some m =>
    obtain ⟨c, y, hrun, hend⟩ := htest
    exact ⟨c, y, hrun, hend.completed hF⟩

theorem forTest_onward {w : World} {x : Site} {cond : Option Node} {b e : BlockId}
    (h : ∀ n, cond = some n → Yields env generate n) (hx : w ≤ x.toWorld)
    (hb : w.Landing x.toWorld b) (he : w.Landing x.toWorld e) (hhead : x.toWorld.HeadIn x.fn) :
    Onward env w x.toWorld (forTest generate cond b e) fun _ y =>
      w.Keeps x.toWorld y ∧ Test env generate y.fn cond w x.block b e := by
  cases cond with
  | none =>
    intro u s hs
    obtain ⟨y, hy, hwy, hend⟩ := terminate_br hx hb u s hs
    exact ⟨y, hy, hwy, .of_ends hend, x, rfl, .of_le hx, hhead.completed hend.completes,
      hend.closedIn⟩
  | some n =>
    refine .bind_site hx (condition_spec (h n rfl)).track fun c y hy hq => ?_
    obtain ⟨hc, hrun⟩ := hq
    intro u s hs
    obtain ⟨z, hz, hwz, hend⟩ :=
      terminate_condBr (hx.trans hy) hc (hb.later hy.1) (he.later hy.1) u s hs
    have hkeep : w.Keeps x.toWorld z := (World.Keeps.of_later hy.1).trans (.of_ends hend)
    exact ⟨z, hz, hwz, hkeep, x, rfl, .of_le hx, hhead.completed hkeep.completes, c, y, hrun,
      hend.closedIn⟩

/-- The code of a loop: the test at `header`, the body from `inner` on, and the way from `next`,
where the body goes on, back to the test. -/
structure Loop (env : Env) (generate : Generate) (F : Function) (cond update : Option Node)
    (body : Node) (w : World) (header inner next exit : BlockId) : Prop where
  test : Test env generate F cond w header inner exit
  turn : Turn env F (generate body) w ⟨exit, next⟩ next inner
  again : (update = none ∧ next = header) ∨ ∃ u u' : Site, u.block = next ∧
    w.Inherits u.toWorld ∧ u.toWorld.HeadIn F ∧
    generateOptional generate update env u.state = .ok () u'.state ∧
    u'.toWorld.ClosedIn F (.br header)

theorem Loop.completed {F g : Function} {cond update : Option Node} {body : Node} {w : World}
    {header inner next exit : BlockId}
    (h : Loop env generate g cond update body w header inner next exit) (hF : F.Completes g) :
    Loop env generate F cond update body w header inner next exit where
  test := h.test.completed hF
  turn := h.turn.completed hF
  again := by
    rcases h.again with h | ⟨u, u', hb, hi, hhead, hrun, hend⟩
    · exact .inl h
    · exact .inr ⟨u, u', hb, hi, hhead.completed hF, hrun, hend.completed hF⟩

theorem whileLoop_eq (generate : Generate) {cond body : Node}
    (hn : n.form = .whileLoop cond body) : whileLoop generate n = do
      let header ← appendBlock "while.cond"
      let bodyBlock ← appendBlock "while.body"
      let exit ← appendBlock "while.end"
      terminate (.br header)
      positionAt header
      forTest generate (some cond) bodyBlock exit
      positionAt bodyBlock
      loopBody generate body ⟨exit, header⟩ header
      positionAt exit
      return .unit := by
  unfold whileLoop forTest
  rw [hn]
  simp only [bind_assoc]

/-- A `while` loop goes on to its test, and from its body back to it. -/
theorem whileLoop_shape {w : Site} {cond body : Node} (hn : n.form = .whileLoop cond body)
    (hcond : Yields env generate cond) (hbody : Runs env generate body) :
    Spec env w (whileLoop generate n) fun _ z => z.toWorld.HeadIn z.fn ∧ ∃ header inner,
      w.toWorld.ClosedIn z.fn (.br header) ∧
      Loop env generate z.fn (some cond) none body w.toWorld header inner header z.block := by
  rw [whileLoop_eq generate hn]
  refine .of_onward ?_
  refine .bind_block (le_refl _) rfl fun header y₁ hy₁ hb₁ hl₁ hheader _ _ => ?_
  refine .bind_block hy₁ hl₁ fun inner y₂ hy₂ hb₂ hl₂ hinner hnewB _ => ?_
  refine .bind_block (hy₁.trans hy₂) hl₂ fun exit y₃ hy₃ hb₃ hl₃ hexit hnewE _ => ?_
  have hne₁ := hheader.ne_of_added hnewB
  have hne₂ := (hheader.later hy₂.1).ne_of_added hnewE
  have hne₃ := hinner.ne_of_added hnewE
  have hheader := (hheader.later hy₂.1).later hy₃.1
  have hinner := hinner.later hy₃.1
  have hwy₃ : w ≤ y₃ := hy₁.trans (hy₂.trans hy₃)
  refine .bind (terminate_br hwy₃ hheader.toLanding) fun _ y₄ hy₄ hend => ?_
  have hstart := hend.closedIn.stays (hb₁.trans (hb₂.trans hb₃)) (Site.later hwy₃).completes
  refine .bind_position hy₄ (hheader.ends hend) fun y₅ hy₅ hmove => ?_
  have hhead := (hheader.ends hend).headIn hmove
  have hheader := (hheader.ends hend).toLanding.moves hmove
  have hinner := (hinner.ends hend).moves hmove hne₁
  have hexit := (hexit.ends hend).moves hmove hne₂
  refine .bind (forTest_onward (fun m hm => Option.some.inj hm ▸ hcond) hy₅ hinner.toLanding
    hexit.toLanding hhead) fun _ y₆ hy₆ hq => ?_
  obtain ⟨hk, htest⟩ := hq
  refine .bind_position hy₆ (hk.vacant hinner) fun y₇ hy₇ hmove' => ?_
  have hhead := (hk.vacant hinner).headIn hmove'
  have hheader := (hk.landing hheader).moves hmove'
  have hexit := (hk.vacant hexit).moves hmove' hne₃
  refine .bind (loopBody_onward hy₇ hbody hexit.toLanding hheader hheader hhead)
    fun _ y₈ hy₈ hq => ?_
  obtain ⟨hk', hturn⟩ := hq
  refine .bind_position hy₈ (hk'.vacant hexit) fun z hz hmove'' => .pure hz ⟨z, rfl, ?_⟩
  have hF₆ : z.fn.Completes y₆.fn :=
    hmove''.completes.trans (hk'.completes.trans hmove'.completes)
  have hF₄ : z.fn.Completes y₄.fn := hF₆.trans (hk.completes.trans hmove.completes)
  refine ⟨(hk'.vacant hexit).headIn hmove'', header, inner, hstart.completed hF₄, ?_⟩
  rw [hmove''.block]
  rw [hmove.block] at htest
  rw [hmove'.block] at hturn
  exact ⟨htest.completed hF₆, hturn.completed hmove''.completes, .inl ⟨rfl, rfl⟩⟩

theorem whileLoop_spec {w : Site} (h : ∀ cond body, n.form = .whileLoop cond body →
    Yields env generate cond ∧ Runs env generate body) :
    Spec env w.toWorld (whileLoop generate n) fun _ _ => True := by
  cases hn : n.form with
  | whileLoop cond body =>
    obtain ⟨hcond, hbody⟩ := h cond body hn
    exact (whileLoop_shape hn hcond hbody).world
  | _ =>
    unfold whileLoop
    rw [hn]
    exact .internal

theorem doWhile_eq (generate : Generate) {cond body : Node}
    (hn : n.form = .doWhile body cond) : doWhile generate n = do
      let bodyBlock ← appendBlock "do.body"
      let latch ← appendBlock "do.cond"
      let exit ← appendBlock "do.end"
      terminate (.br bodyBlock)
      positionAt bodyBlock
      loopBody generate body ⟨exit, latch⟩ latch
      positionAt latch
      forTest generate (some cond) bodyBlock exit
      positionAt exit
      return .unit := by
  unfold doWhile forTest
  rw [hn]
  simp only [bind_assoc]

/-- A `do` loop goes on to its body, and from there to its test. -/
theorem doWhile_shape {w : Site} {cond body : Node} (hn : n.form = .doWhile body cond)
    (hbody : Runs env generate body) (hcond : Yields env generate cond) :
    Spec env w (doWhile generate n) fun _ z => z.toWorld.HeadIn z.fn ∧ ∃ latch inner,
      w.toWorld.ClosedIn z.fn (.br inner) ∧
      Loop env generate z.fn (some cond) none body w.toWorld latch inner latch z.block := by
  rw [doWhile_eq generate hn]
  refine .of_onward ?_
  refine .bind_block (le_refl _) rfl fun inner y₁ hy₁ hb₁ hl₁ hinner _ _ => ?_
  refine .bind_block hy₁ hl₁ fun latch y₂ hy₂ hb₂ hl₂ hlatch hnewL _ => ?_
  refine .bind_block (hy₁.trans hy₂) hl₂ fun exit y₃ hy₃ hb₃ hl₃ hexit hnewE _ => ?_
  have hne₁ := hinner.ne_of_added hnewL
  have hne₂ := (hinner.later hy₂.1).ne_of_added hnewE
  have hne₃ := hlatch.ne_of_added hnewE
  have hinner := (hinner.later hy₂.1).later hy₃.1
  have hlatch := hlatch.later hy₃.1
  have hwy₃ : w ≤ y₃ := hy₁.trans (hy₂.trans hy₃)
  refine .bind (terminate_br hwy₃ hinner.toLanding) fun _ y₄ hy₄ hend => ?_
  have hstart := hend.closedIn.stays (hb₁.trans (hb₂.trans hb₃)) (Site.later hwy₃).completes
  refine .bind_position hy₄ (hinner.ends hend) fun y₅ hy₅ hmove => ?_
  have hhead := (hinner.ends hend).headIn hmove
  have hinner := (hinner.ends hend).toLanding.moves hmove
  have hlatch := (hlatch.ends hend).moves hmove hne₁
  have hexit := (hexit.ends hend).moves hmove hne₂
  refine .bind (loopBody_onward hy₅ hbody hexit.toLanding hlatch.toLanding hlatch.toLanding hhead)
    fun _ y₆ hy₆ hq => ?_
  obtain ⟨hk, hturn⟩ := hq
  refine .bind_position hy₆ (hk.vacant hlatch) fun y₇ hy₇ hmove' => ?_
  have hhead := (hk.vacant hlatch).headIn hmove'
  have hinner := (hk.landing hinner).moves hmove'
  have hexit := (hk.vacant hexit).moves hmove' hne₃
  refine .bind (forTest_onward (fun m hm => Option.some.inj hm ▸ hcond) hy₇ hinner
    hexit.toLanding hhead) fun _ y₈ hy₈ hq => ?_
  obtain ⟨hk', htest⟩ := hq
  refine .bind_position hy₈ (hk'.vacant hexit) fun z hz hmove'' => .pure hz ⟨z, rfl, ?_⟩
  have hF₆ : z.fn.Completes y₆.fn :=
    hmove''.completes.trans (hk'.completes.trans hmove'.completes)
  have hF₄ : z.fn.Completes y₄.fn := hF₆.trans (hk.completes.trans hmove.completes)
  refine ⟨(hk'.vacant hexit).headIn hmove'', latch, inner, hstart.completed hF₄, ?_⟩
  rw [hmove''.block]
  rw [hmove.block] at hturn
  rw [hmove'.block] at htest
  exact ⟨htest.completed hmove''.completes, hturn.completed hF₆, .inl ⟨rfl, rfl⟩⟩

theorem doWhile_spec {w : Site} (h : ∀ body cond, n.form = .doWhile body cond →
    Runs env generate body ∧ Yields env generate cond) :
    Spec env w.toWorld (doWhile generate n) fun _ _ => True := by
  cases hn : n.form with
  | doWhile body cond =>
    obtain ⟨hbody, hcond⟩ := h body cond hn
    exact (doWhile_shape hn hbody hcond).world
  | _ =>
    unfold doWhile
    rw [hn]
    exact .internal

/-- A `for` loop behind its first part. -/
def forRest (generate : Generate) (cond update : Option Node) (body : Node) : Gen Unit := do
  let header ← appendBlock "for.cond"
  let bodyBlock ← appendBlock "for.body"
  let latch ← appendBlock "for.update"
  let exit ← appendBlock "for.end"
  terminate (.br header)
  positionAt header
  forTest generate cond bodyBlock exit
  positionAt bodyBlock
  loopBody generate body ⟨exit, latch⟩ latch
  positionAt latch
  generateOptional generate update
  terminate (.br header)
  positionAt exit

/-- A `for` loop is its first part, the rest, and the return to the scope outside. -/
theorem forLoop_eq (generate : Generate) {init cond update : Option Node} {body : Node}
    (hn : n.form = .forLoop init cond update body) : forLoop generate n = do
      let outer := (← frame).scope
      generateOptional generate init
      forRest generate cond update body
      setScope outer
      return .unit := by
  unfold forLoop forRest forTest
  rw [hn]
  cases cond <;> simp only [bind_assoc]

theorem generateOptional_spec {w : Site} {m : Option Node}
    (h : ∀ n, m = some n → Yields env generate n) :
    Spec env w (generateOptional generate m) fun _ _ => True := by
  cases m with
  | none => exact .pure trivial
  | some n => exact .bind (h n rfl w) fun _ _ _ _ => .pure trivial

theorem generateOptional_later {w : Site} {m : Option Node} {u : Unit} {s : GenState}
    (h : ∀ n, m = some n → Introduces env generate n)
    (hs : generateOptional generate m env w.state = .ok u s) :
    ∃ x : Site, x.state = s ∧ w.Later x.toWorld := by
  cases m with
  | none =>
    cases hs
    exact ⟨w, rfl, .refl _⟩
  | some n =>
    obtain ⟨v, s₁, h₁, hs⟩ := bind_ok hs
    cases hs
    exact h n rfl w v s h₁

/-- Behind its first part a `for` loop goes on to its test, and from its body to its last part. -/
theorem forRest_shape {w : Site} {cond update : Option Node} {body : Node}
    (hcond : ∀ m, cond = some m → Yields env generate m)
    (hupdate : ∀ m, update = some m → Yields env generate m) (hbody : Runs env generate body) :
    Spec env w (forRest generate cond update body) fun _ z => z.toWorld.HeadIn z.fn ∧
      ∃ header inner latch, w.toWorld.ClosedIn z.fn (.br header) ∧
        Loop env generate z.fn cond update body w.toWorld header inner latch z.block := by
  refine .of_onward ?_
  refine .bind_block (le_refl _) rfl fun header y₁ hy₁ hb₁ hl₁ hheader _ _ => ?_
  refine .bind_block hy₁ hl₁ fun inner y₂ hy₂ hb₂ hl₂ hinner hnewB _ => ?_
  refine .bind_block (hy₁.trans hy₂) hl₂ fun latch y₃ hy₃ hb₃ hl₃ hlatch hnewL _ => ?_
  have hwy₃ : w ≤ y₃ := hy₁.trans (hy₂.trans hy₃)
  refine .bind_block hwy₃ hl₃ fun exit y₄ hy₄ hb₄ hl₄ hexit hnewE _ => ?_
  have hne₁ := hheader.ne_of_added hnewB
  have hne₂ := (hheader.later hy₂.1).ne_of_added hnewL
  have hne₃ := hinner.ne_of_added hnewL
  have hne₄ := ((hheader.later hy₂.1).later hy₃.1).ne_of_added hnewE
  have hne₅ := (hinner.later hy₃.1).ne_of_added hnewE
  have hne₆ := hlatch.ne_of_added hnewE
  have hheader := ((hheader.later hy₂.1).later hy₃.1).later hy₄.1
  have hinner := (hinner.later hy₃.1).later hy₄.1
  have hlatch := hlatch.later hy₄.1
  have hwy₄ : w ≤ y₄ := hwy₃.trans hy₄
  refine .bind (terminate_br hwy₄ hheader.toLanding) fun _ y₅ hy₅ hend => ?_
  have hstart := hend.closedIn.stays (hb₁.trans (hb₂.trans (hb₃.trans hb₄)))
    (Site.later hwy₄).completes
  refine .bind_position hy₅ (hheader.ends hend) fun y₆ hy₆ hmove => ?_
  have hhead := (hheader.ends hend).headIn hmove
  have hheader := (hheader.ends hend).toLanding.moves hmove
  have hinner := (hinner.ends hend).moves hmove hne₁
  have hlatch := (hlatch.ends hend).moves hmove hne₂
  have hexit := (hexit.ends hend).moves hmove hne₄
  refine .bind (forTest_onward hcond hy₆ hinner.toLanding hexit.toLanding hhead)
    fun _ y₇ hy₇ hq => ?_
  obtain ⟨hk, htest⟩ := hq
  refine .bind_position hy₇ (hk.vacant hinner) fun y₈ hy₈ hmove' => ?_
  have hhead := (hk.vacant hinner).headIn hmove'
  have hheader := (hk.landing hheader).moves hmove'
  have hlatch := (hk.vacant hlatch).moves hmove' hne₃
  have hexit := (hk.vacant hexit).moves hmove' hne₅
  refine .bind (loopBody_onward hy₈ hbody hexit.toLanding hlatch.toLanding hlatch.toLanding hhead)
    fun _ y₉ hy₉ hq => ?_
  obtain ⟨hk', hturn⟩ := hq
  refine .bind_position hy₉ (hk'.vacant hlatch) fun u hu hmove₂ => ?_
  have hhead := (hk'.vacant hlatch).headIn hmove₂
  have hheader := (hk'.landing hheader).moves hmove₂
  have hexit := (hk'.vacant hexit).moves hmove₂ hne₆
  refine .bind_site hu (generateOptional_spec hupdate).track fun _ u' hu' hq => ?_
  refine .bind (terminate_br (hu.trans hu') (hheader.later hu'.1)) fun _ y₁₂ hy₁₂ hend₂ => ?_
  have hexit := (hexit.later hu'.1).ends hend₂
  intro a s hrun
  obtain ⟨z, hz, hwz, hmove₃, hopen⟩ := positionAt_onward hy₁₂ hexit a s hrun
  refine ⟨z, hz, hwz, ⟨z, hopen⟩, rfl, hexit.headIn hmove₃, header, inner, latch, ?_⟩
  have hF : z.fn.Completes u.fn :=
    hmove₃.completes.trans (hend₂.completes.trans hu'.1.completes)
  have hF₇ : z.fn.Completes y₇.fn :=
    hF.trans (hmove₂.completes.trans (hk'.completes.trans hmove'.completes))
  have hF₅ : z.fn.Completes y₅.fn := hF₇.trans (hk.completes.trans hmove.completes)
  rw [hmove.block] at htest
  rw [hmove'.block] at hturn
  refine ⟨hstart.completed hF₅, ?_⟩
  rw [show (Site.mk z hopen).block = exit from hmove₃.block]
  exact {
    test := htest.completed hF₇
    turn := hturn.completed (hF.trans hmove₂.completes)
    again := .inr ⟨u, u', hmove₂.block, .of_le hu, hhead.completed hF, hq.2,
      hend₂.closedIn.completed hmove₃.completes⟩ }

theorem forLoop_spec {w : Site} (h : ∀ init cond update body,
    n.form = .forLoop init cond update body →
      (∀ m, init = some m → Introduces env generate m) ∧
      (∀ m, cond = some m → Yields env generate m) ∧
      (∀ m, update = some m → Yields env generate m) ∧ Runs env generate body) :
    Spec env w.toWorld (forLoop generate n) fun _ _ => True := by
  cases hn : n.form with
  | forLoop init cond update body =>
    obtain ⟨hinit, hcond, hupdate, hbody⟩ := h init cond update body hn
    rw [forLoop_eq generate hn]
    refine .read rfl ?_
    intro v s hs
    obtain ⟨u₁, s₁, h₁, hs⟩ := bind_ok hs
    obtain ⟨x, rfl, hx⟩ := generateOptional_later hinit h₁
    obtain ⟨u₂, s₂, h₂, hs⟩ := bind_ok hs
    obtain ⟨y, rfl, hxy, -⟩ := forRest_shape hcond hupdate hbody u₂ s₂ h₂
    -- the names of the head go out of scope
    obtain ⟨z, hz, -, hwz⟩ := exists_restored (hx.trans hxy.1)
    cases hs
    exact ⟨z, hz, hwz, trivial⟩
  | _ =>
    unfold forLoop
    rw [hn]
    exact .internal

/-! ## Jumps -/

/-- Ends the current block without going on in this function. -/
theorem terminate_leave {w : Site} {t : Terminator} (hu : ∀ u ∈ t.uses, w.Has u)
    (hs : t.successors = []) :
    Spec env w.toWorld (terminate t) fun _ y => w.toWorld.Ends y t :=
  terminate_onward (le_refl _) hu (by simp [hs])

theorem returnStatement_spec {w : Site}
    (h : ∀ v, n.form = .ret (some v) → Yields env generate v) :
    Spec env w.toWorld (returnStatement generate n) fun _ _ => True := by
  unfold returnStatement
  split
  · next value hn =>
    refine .read rfl ?_
    split
    · next v =>
      dsimp only
      split
      · refine Onward.to_spec (.bind_site (le_refl _) (h v hn w) fun _ x hx _ => ?_)
        refine .rebase hx (.bind (.of_spec (le_refl _) (terminate_leave (by simp [Terminator.uses])
          rfl)) fun _ y hy _ => .pure hy trivial)
      · refine Onward.to_spec (.bind_site (le_refl _) (generateOperand_spec (h v hn))
          fun r x hx hr => ?_)
        refine .rebase hx (.bind (.of_spec (le_refl _) (terminate_leave
          (by simpa [Terminator.uses] using hr) rfl)) fun _ y hy _ => .pure hy trivial)
    · dsimp only
      split
      · exact .bind (terminate_leave (by simp [Terminator.uses]) rfl) fun _ _ _ _ => .pure trivial
      · exact .bind (.internal (Q := fun _ _ => False)) fun _ _ _ hf => hf.elim
  · exact .internal

theorem terminate_target {w : Site} {b : BlockId} (hb : w.frame.IsTarget b) :
    Spec env w.toWorld (terminate (.br b)) fun _ y => w.toWorld.Ends y (.br b) :=
  terminate_onward (le_refl _) (by simp [Terminator.uses])
    (by simpa [Terminator.successors] using .inr hb)

theorem breakLoop_spec {w : Site} : Spec env w.toWorld (breakLoop n) fun _ _ => True := by
  refine .read rfl ?_
  split
  · next t rest ht =>
    have ht : w.frame.loops = t :: rest := ht
    have hb : w.frame.IsTarget t.breakTo := ⟨t, by rw [ht]; exact List.mem_cons_self, .inl rfl⟩
    exact .bind (terminate_target hb) fun _ _ _ _ => .pure trivial
  · exact .internal

theorem continueLoop_spec {w : Site} : Spec env w.toWorld (continueLoop n) fun _ _ => True := by
  refine .read rfl ?_
  split
  · next t rest ht =>
    have ht : w.frame.loops = t :: rest := ht
    have hb : w.frame.IsTarget t.continueTo := ⟨t, by rw [ht]; exact List.mem_cons_self, .inr rfl⟩
    exact .bind (terminate_target hb) fun _ _ _ _ => .pure trivial
  · exact .internal

end Gen

end TypedLowering
