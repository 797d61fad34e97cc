import TypedLowering.Lowering.Call
import TypedLowering.Proofs.Flow.Branch
import TypedLowering.Proofs.Lowering.Specialization

/-!
Calls. The function of a specialization is generated in a frame of its own, from an entry block that
nothing leads to; seen from the calling function, only settled functions are added to the module.
-/
namespace TypedLowering
set_option autoImplicit false
open Ssa Ssa.Function

namespace Gen

variable {env : Env} {generate : Generate}

/-! ## Binding names -/

/-- A node that may bring names into scope, as a statement of a block does. -/
def Settles (env : Env) (generate : Generate) (n : Node) : Prop :=
  ∀ (w : Site) v s, generate n env w.state = .ok v s → ∃ x : World, x.state = s ∧ w.Later x

/-- Any names may be in scope that stand for what can be read. -/
theorem exists_scoped (w : World) (scope : Scope String StaticType)
    (hs : ∀ name binding, scope.get? name = some binding → w.Has binding.value) : ∃ x : World,
      x.state = ⟨w.state.unit, w.frame.within scope⟩ ∧ x.fn = w.fn ∧ x.heads = w.heads ∧
      w.Later x := by
  refine ⟨⟨⟨w.state.unit, w.frame.within scope⟩, w.fn, w.heads, w.current, w.flow, ?_⟩, rfl, rfl,
    rfl, ?_⟩
  · exact { inBlock := w.fits.inBlock, scope := hs, this := w.fits.this, loops := w.fits.loops }
  · exact {
      frame := rfl
      others := .refl _ _
      grows := .refl _ _ _
      heads := fun _ _ => rfl
      mono := fun _ => id
      apart := .inl rfl }

/-- A name may be bound to what can be read. -/
theorem exists_bound (w : Site) (name : String) (binding : Binding StaticType)
    (hb : w.Has binding.value) : ∃ x : Site,
      x.state = ⟨w.state.unit, w.frame.within (w.frame.scope.insert name binding)⟩ ∧
      w.Later x.toWorld ∧ w.toWorld.Moves x.toWorld w.block := by
  obtain ⟨x, hx, hfn, hA, hl⟩ := exists_scoped w.toWorld
    (w.frame.scope.insert name binding) (by
      intro name' binding' h
      by_cases hn : name = name'
      · subst hn
        rw [Dict.get?_insert_self] at h
        cases h
        exact hb
      · rw [Dict.get?_insert_of_ne _ _ hn] at h
        exact w.fits.scope name' binding' h)
  have hopen : x.IsOpen := by
    show x.fn.exit x.state.frame.block = none
    rw [hfn, hx]
    exact w.isOpen
  exact ⟨⟨x, hopen⟩, hx, hl, hfn, hA, congrArg (·.frame.block) hx⟩

/-- A name is bound to a new stack slot, into which the next instruction stores the value. -/
theorem bindLocal_later {w : Site} {name : String} {v : ValueId} {t : StaticType} {span : Span}
    {a : Unit} {s : GenState} (hv : w.Has v)
    (h : bindLocal name v t span env w.state = .ok a s) :
    ∃ x : Site, x.state = s ∧ w.Later x.toWorld := by
  obtain ⟨lowered, s₁, h₁, h⟩ := bind_ok h
  obtain ⟨-, rfl⟩ := ofExcept_ok h₁
  obtain ⟨slot, s₂, h₂, h⟩ := bind_ok h
  obtain ⟨x₁, rfl, hx₁, hslot, rfl, -⟩ := emitSlot_spec slot s₂ h₂
  obtain ⟨u, s₃, h₃, h⟩ := bind_ok h
  obtain ⟨stored, s₄, h₄, h₃⟩ := bind_ok h₃
  have hreads : x₁.Reads (.store v w.fn.nextValue) := by simp [Site.has hx₁ hv, hslot]
  obtain ⟨x₂, rfl, hx₂, -⟩ := emit_appends hreads stored s₄ h₄
  cases h₃
  obtain ⟨x, hx, hl, -⟩ := exists_bound x₂ name (.slot w.fn.nextValue lowered t)
    (Site.has hx₂ hslot)
  cases h
  exact ⟨x, hx, (Site.later (hx₁.trans hx₂)).trans hl⟩

theorem bindParams_later {params : List ResolvedParam}
    (hd : ∀ p ∈ params, ∀ d, p.default = some d → Yields env generate d) {next : Nat} {w : Site}
    {a : Unit} {s : GenState}
    (hn : next + (params.filter (·.supplied)).length ≤ w.fn.params.length)
    (h : bindParams generate next params env w.state = .ok a s) :
    ∃ x : Site, x.state = s ∧ w.Later x.toWorld := by
  induction params generalizing next w with
  | nil =>
    cases h
    exact ⟨w, rfl, .refl _⟩
  | cons p rest ih =>
    have hrest : ∀ q ∈ rest, ∀ d, q.default = some d → Yields env generate d :=
      fun q hq => hd q (List.mem_cons_of_mem p hq)
    unfold bindParams at h
    cases hs : p.supplied with
    | true =>
      simp only [hs, if_true] at h
      have hn : next + ((rest.filter (·.supplied)).length + 1) ≤ w.fn.params.length := by
        rw [List.filter_cons_of_pos hs] at hn
        exact hn
      have hp : w.fn.IsParam (Function.param next) := by
        show next < w.fn.params.length
        omega
      obtain ⟨u, s₁, h₁, h⟩ := bind_ok h
      obtain ⟨x, rfl, hx⟩ := bindLocal_later (.inl hp) h₁
      obtain ⟨y, hy, hxy⟩ := ih hrest (by rw [hx.grows.params]; omega) h
      exact ⟨y, hy, hx.trans hxy⟩
    | false =>
      simp only [hs, Bool.false_eq_true, if_false] at h
      rw [List.filter_cons_of_neg (by simp [hs])] at hn
      cases hdef : p.default with
      | none =>
        rw [hdef] at h
        exact (internal_ok h).elim
      | some d =>
        rw [hdef] at h
        obtain ⟨v, s₁, h₁, h⟩ := bind_ok h
        obtain ⟨x, rfl, hx, hv⟩ :=
          generateOperand_spec (w := w) (hd p List.mem_cons_self d hdef) v s₁ h₁
        obtain ⟨u, s₂, h₂, h⟩ := bind_ok h
        obtain ⟨y, rfl, hy⟩ := bindLocal_later hv h₂
        have hwy := (Site.later hx).trans hy
        obtain ⟨z, hz, hyz⟩ := ih hrest (by rw [hwy.grows.params]; omega) h
        exact ⟨z, hz, hwy.trans hyz⟩

/-! ## The frame of a function -/

/-- The state in which the body of a new function is generated. -/
theorem exists_start {m : Module} {id : FunctionId} {name : String} {params : List Ty} {ret : Ty}
    {u : UnitState} (hm : u.module = m.modifyFunction id fun f => f.addBlock "entry")
    (hf : m.function? id = some (.shell name params ret .internal)) (subst : Substitution)
    (returnType : StaticType) : ∃ x : Site,
      x.state = ⟨u, { Frame.outside with function := id, block := entry, subst, returnType }⟩ ∧
      x.fn = (Function.shell name params ret .internal).addBlock "entry" := by
  have hcur : u.module.function? id
      = some ((Function.shell name params ret .internal).addBlock "entry") := by
    rw [hm, Module.function?_modifyFunction, if_pos rfl, hf]
    rfl
  refine ⟨⟨⟨_, _, _, hcur, flow_entry name params ret .internal "entry", ?_⟩, ?_⟩, rfl, rfl⟩
  · exact {
      inBlock := by
        show 0 < _
        simp
      scope := by simp [Frame.outside, Dict.empty, Dict.get?]
      this := by simp [Frame.outside]
      loops := by simp [Frame.outside] }
  · show ((shell name params ret .internal).addBlock "entry").exit entry = none
    rw [exit_addBlock]
    rfl

/-- A body that is still open ends with a return, if there is nothing to return. -/
theorem finishBody_spec {w : World} : Spec env w finishBody fun _ y =>
    w.IsOpen → w.frame.returnType = .void → w.ClosedIn y.fn (.ret none) := by
  have finish {t : Terminator} (ho : w.IsOpen) (hu : t.uses = []) (hs : t.successors = []) :
      Spec env w (terminate t) fun _ y => w.ClosedIn y.fn t := by
    intro a s h
    obtain ⟨y, hy, hl, hend⟩ := terminate_onward (x := ⟨w, ho⟩) (le_refl w) (by simp [hu])
      (by simp [hs]) a s h
    exact ⟨y, hy, hl, hend.closedIn⟩
  refine .read rfl ?_
  rw [World.state_eq, w.state.query_eq w.current, isTerminated_eq]
  cases ho : w.fn.exit w.state.frame.block with
  | some t =>
    refine .pure fun hopen => ?_
    cases hopen.symm.trans ho
  | none =>
    refine .read rfl ?_
    split
    · exact (finish ho rfl rfl).mono fun _ _ _ h _ _ => h
    · next hvoid => exact (finish (t := .unreachable) ho rfl rfl).mono fun _ _ _ _ _ h => (hvoid h).elim

/-- The parameters, the body and the end of a function. -/
def bodyRest (generate : Generate) (sp : Specialization) (body : Node) : Gen Unit := do
  bindParams generate (if sp.isInstance then 1 else 0) sp.params
  let _ ← generate body
  finishBody

/-- The place behind the start where the receiver of a method, its first parameter, is known. -/
structure Receives (w x : Site) : Prop where
  fn : x.fn = w.fn
  frame : ∃ this, x.frame = { w.frame with this }
  others : w.module.Extends x.module fun _ => False

theorem exists_receiver (w : Site) (d : ClassDescriptor) (hp : w.fn.IsParam (Function.param 0)) :
    ∃ x : Site, x.state = ⟨w.state.unit,
      { w.state.frame with this := some (.instanceAt d (Function.param 0)) }⟩ ∧ x.fn = w.fn := by
  refine ⟨⟨⟨⟨w.state.unit,
    { w.state.frame with this := some (.instanceAt d (Function.param 0)) }⟩, w.fn, w.heads,
    w.current, w.flow, ?_⟩, w.isOpen⟩, rfl, rfl⟩
  refine { inBlock := w.fits.inBlock, scope := w.fits.scope, this := ?_, loops := w.fits.loops }
  intro o a ho ha
  cases ho
  cases ha
  exact hp

theorem generateBody_ok {sp : Specialization} {body : Node} {span : Span} {w : Site} {a : Unit}
    {s : GenState} (hp : sp.isInstance = true → 0 < w.fn.params.length)
    (h : generateBody generate sp body span env w.state = .ok a s) :
    ∃ x : Site, Receives w x ∧ bodyRest generate sp body env x.state = .ok a s := by
  unfold generateBody at h
  unfold bodyRest
  cases hi : sp.isInstance with
  | false =>
    simp only [hi, Bool.false_eq_true, if_false] at h ⊢
    exact ⟨w, ⟨rfl, ⟨_, rfl⟩, .refl _ _⟩, h⟩
  | true =>
    simp only [hi, if_true] at h ⊢
    cases ho : sp.owner with
    | none =>
      rw [ho] at h
      obtain ⟨_, _, h₁, _⟩ := bind_ok h
      exact (internal_ok h₁).elim
    | some owner =>
      rw [ho] at h
      obtain ⟨d, s₁, h₁, h⟩ := bind_ok h
      obtain ⟨o, rfl, ho, -⟩ := descriptor_outside (w := ⟨w.state⟩) d s₁ h₁
      obtain ⟨x₁, hx₁, hwx⟩ := w.exists_outside ho
      obtain ⟨hframe, hext⟩ := ho
      have hfn : x₁.fn = w.fn := by
        have hcur := x₁.current
        rw [hx₁, hframe] at hcur
        exact Option.some.inj (hcur.symm.trans (hext.kept id w.current))
      obtain ⟨u, s₂, h₂, h⟩ := bind_ok h
      cases h₂
      obtain ⟨x₂, hx₂, hfn₂⟩ := exists_receiver x₁ d (by rw [hfn]; exact hp hi)
      rw [hx₁] at hx₂
      refine ⟨x₂, ⟨hfn₂.trans hfn, ⟨some (.instanceAt d (Function.param 0)), ?_⟩, ?_⟩,
        by rw [hx₂]; exact h⟩
      · simp only [congrArg GenState.frame hx₂, hframe]
      · rw [show x₂.module = _ from congrArg (·.unit.module) hx₂]
        exact hext

/-- The body of a specialization is generated into a valid one, and other functions stay. -/
theorem generateBody_world {sp : Specialization} {body : Node} {span : Span} {w : Site} {a : Unit}
    {s : GenState} (hd : ∀ p ∈ sp.params, ∀ d, p.default = some d → Yields env generate d)
    (hbody : Settles env generate body)
    (hp : (if sp.isInstance then 1 else 0) + sp.suppliedParams.length ≤ w.fn.params.length)
    (h : generateBody generate sp body span env w.state = .ok a s) :
    ∃ x : World, x.state = s ∧ x.frame.function = w.frame.function ∧
      w.module.Extends x.module (· = w.frame.function) := by
  obtain ⟨x, hx, h⟩ := generateBody_ok (by intro hi; simp only [hi, if_true] at hp; omega) h
  obtain ⟨u, s₁, h₁, h⟩ := bind_ok h
  obtain ⟨y₁, rfl, hy₁⟩ := bindParams_later hd (by rw [hx.fn]; exact hp) h₁
  obtain ⟨v, s₂, h₂, h⟩ := bind_ok h
  obtain ⟨y₂, rfl, hy₂⟩ := hbody y₁ v s₂ h₂
  obtain ⟨y₃, hy₃, hl, -⟩ := finishBody_spec a s h
  have hxy := hy₁.trans (hy₂.trans (World.later hl))
  have hfun : x.frame.function = w.frame.function := by
    obtain ⟨this, hframe⟩ := hx.frame
    rw [hframe]
  refine ⟨y₃, hy₃, hxy.function_eq.trans hfun, ?_⟩
  have hothers := hxy.others
  rw [hfun] at hothers
  exact (hx.others.weaken fun _ => False.elim).trans hothers

/-- A specialization that is not there yet: its function is entered, its body generated. -/
theorem enterDefinition_ok {sp : Specialization} {symbol : String} {params : List Ty} {ret : Ty}
    {s s' : GenState} {id : FunctionId}
    (h : enterDefinition sp symbol params ret env s = .ok id s') :
    id = s.unit.module.nextFunction ∧ s'.frame = s.frame ∧
      s'.unit.module = s.unit.module.addFunction (.shell symbol params ret .internal) := by
  cases h
  exact ⟨rfl, rfl, rfl⟩

/-- The body of a function is generated from its first block on, with no names in scope. -/
theorem inFunction_ok {m : Module} {symbol : String} {params : List Ty} {ret : Ty}
    {subst : Substitution} {returnType : StaticType} {body : Gen Unit} {s s' : GenState} {u : Unit}
    (hm : s.unit.module = m.addFunction (.shell symbol params ret .internal))
    (h : inFunction m.nextFunction subst returnType body env s = .ok u s') :
    ∃ (x : Site) (s₁ : GenState),
      x.frame = { Frame.outside with
        function := m.nextFunction, block := entry, subst, returnType } ∧
      x.module = s.unit.module.modifyFunction m.nextFunction (Function.addBlock · "entry") ∧
      x.fn = (Function.shell symbol params ret .internal).addBlock "entry" ∧
      body env x.state = .ok () s₁ ∧ s' = ⟨s₁.unit, s.frame⟩ := by
  have hshell : s.unit.module.function? m.nextFunction
      = some (.shell symbol params ret .internal) := by
    rw [hm]
    exact m.function?_addFunction_next _
  obtain ⟨outer, s₁, h₁, h⟩ := bind_ok h
  cases h₁
  obtain ⟨u₂, s₂, h₂, h⟩ := bind_ok h
  cases h₂
  obtain ⟨b, s₃, h₃, h⟩ := bind_ok h
  cases h₃
  obtain ⟨u₄, s₄, h₄, h⟩ := bind_ok h
  obtain ⟨u₅, s₅, h₅, h⟩ := bind_ok h
  cases h
  -- the body starts in the new function, at its only block
  obtain ⟨x, hx, hfn⟩ := exists_start (m := s.unit.module)
    (u := { s.unit with
      module := s.unit.module.modifyFunction m.nextFunction (Function.addBlock · "entry") })
    rfl hshell subst returnType
  have hs₄ : x.state = s₄ := by
    rw [hx]
    cases h₄
    rw [GenState.query_eq _ hshell]
    rfl
  refine ⟨x, s₅, congrArg (·.frame) hx, congrArg (·.unit.module) hx, hfn, ?_, rfl⟩
  rw [hs₄]
  exact h₅

theorem inFunction_extends {m : Module} {symbol : String} {params : List Ty} {ret : Ty}
    {subst : Substitution} {returnType : StaticType} {body : Gen Unit} {s s' : GenState} {u : Unit}
    (hm : s.unit.module = m.addFunction (.shell symbol params ret .internal))
    (hbody : ∀ (w : Site) a s', w.fn.params = params → body env w.state = .ok a s' →
      ∃ x : World, x.state = s' ∧ x.frame.function = w.frame.function ∧
        w.module.Extends x.module (· = w.frame.function))
    (h : inFunction m.nextFunction subst returnType body env s = .ok u s') :
    s'.frame = s.frame ∧ m.Extends s'.unit.module fun _ => False := by
  obtain ⟨x, s₁, hframe, hmod, hfn, hrun, rfl⟩ := inFunction_ok hm h
  obtain ⟨y, rfl, hy, hext⟩ := hbody x () s₁ (by rw [hfn]; rfl) hrun
  refine ⟨rfl, ?_⟩
  have hfun : x.frame.function = m.nextFunction := by rw [hframe]
  rw [hfun] at hext
  have hstart := s.unit.module.extends_modifyFunction m.nextFunction fun f => f.addBlock "entry"
  rw [← hmod] at hstart
  have hrest := hstart.trans hext
  have hnew : m.function? m.nextFunction = none := Array.getElem?_eq_none (Nat.le_refl _)
  have hold {id : FunctionId} (hid : id ≠ m.nextFunction) :
      s.unit.module.function? id = m.function? id := by
    rw [hm]
    exact m.function?_addFunction_of_ne hid
  exact {
    kept := by
      intro id f _ hf
      have hid : id ≠ m.nextFunction := by
        rintro rfl
        rw [hnew] at hf
        cases hf
      exact hrest.kept hid ((hold hid).trans hf)
    added := by
      intro id f _ hf
      by_cases hid : id = m.nextFunction
      · have hcur := y.current
        rw [hy, hfun, ← hid] at hcur
        cases hcur.symm.trans hf
        exact .inr (.inr ⟨_, y.flow⟩)
      · rcases hrest.added hid hf with hf | hf
        · exact .inl ((hold hid).symm.trans hf)
        · exact .inr hf }

/-- A request for a specialization adds only settled functions to the module. -/
theorem specialize_outside {sp : Specialization} {span : Span} {w : Outside}
    (hd : ∀ p ∈ sp.params, ∀ d, p.default = some d → Yields env generate d)
    (hbody : ∀ decl body, env.program.function? sp.func = some decl → decl.body = some body →
      Settles env generate body) :
    Spec env w (specialize generate sp span) fun _ _ => True := by
  refine .bind (.ofExcept (Q := fun ps _ => sp.loweredParams = .ok ps) fun _ => id)
    fun params x hx hparams => ?_
  refine .bind (.ofExcept (Q := fun _ _ => True) fun _ _ => trivial) fun ret y hy _ => ?_
  refine .bind functionDecl_outside fun decl z hz hdecl => ?_
  split
  · exact declareExternal_outside
  · next body hb =>
    refine .read rfl (.read rfl ?_)
    split
    · exact .bind (modifyUnit_outside (.refl _ _)) fun _ _ _ _ => .pure trivial
    · intro id s h
      obtain ⟨id', s₁, h₁, h⟩ := bind_ok h
      obtain ⟨rfl, hframe, hm⟩ := enterDefinition_ok h₁
      obtain ⟨u, s₂, h₂, h⟩ := bind_ok h
      cases h
      obtain ⟨hframe', hext⟩ := inFunction_extends hm (fun w a s' hp hrun =>
        generateBody_world hd (hbody decl body hdecl hb)
          (by simp only [hp, Specialization.length_loweredParams hparams, Nat.le_refl]) hrun) h₂
      exact ⟨⟨s⟩, rfl, ⟨hframe'.trans hframe, hext⟩, trivial⟩

/-! ## Calls -/

/-- A function whose defaults and body are generated as they should. -/
def Callable (env : Env) (generate : Generate) (func : FuncId) : Prop :=
  ∀ decl, env.program.function? func = some decl →
    (∀ q ∈ decl.params, ∀ d, q.default = some d → Yields env generate d) ∧
    ∀ body, decl.body = some body → Settles env generate body

theorem specialize_spec {sp : Specialization} {decl : FunctionDecl} {typeArgs : List StaticType}
    {argCount : Nat} {span span' : Span} {w : Outside} (hc : Callable env generate sp.func)
    (hdecl : env.program.function? sp.func = some decl)
    (hr : sp.Resolves env.program sp.func decl typeArgs argCount span') :
    Spec env w (specialize generate sp span) fun _ _ => True := by
  refine specialize_outside ?_ ?_
  · intro p hp d hd
    obtain ⟨q, hq, hqd⟩ := hr.exists_default hp hd
    exact (hc decl hdecl).1 q hq d hqd
  · intro decl' body hdecl' hb
    exact (hc decl' hdecl').2 body hb

variable {w : Site} {args : List Node} {span : Span}

theorem arrayOfOperands_spec {l : ArrayLayout} {elements : List ValueId}
    (he : ∀ v ∈ elements, w.Has v) :
    Spec env w (arrayOfOperands l elements span) fun v x => x.Has v := by
  refine .bind emitI32_spec fun length x hx hl => callSupport_spec ?_
  intro u hu
  rcases List.mem_cons.mp hu with rfl | hu
  · exact hl
  · exact Site.has hx (he u hu)

theorem argumentOperands_spec (h : ∀ a ∈ args, Yields env generate a)
    {params : List ResolvedParam} {index : Nat} :
    Spec env w (argumentOperands generate args span index params) fun vs x =>
      ∀ v ∈ vs, x.Has v := by
  induction params generalizing index w with
  | nil => exact .pure (by simp)
  | cons p rest ih =>
    -- the operands for the first parameter, then those for the others
    have more {m : Gen (List ValueId)} (hm : Spec env w m fun vs x => ∀ v ∈ vs, x.Has v) :
        Spec env w (do
          let here ← m
          return here ++ (← argumentOperands generate args span (index + 1) rest)) fun vs x =>
            ∀ v ∈ vs, x.Has v := by
      refine .bind hm fun here x hx hhere => .bind ih fun vs y hy hvs => .pure ?_
      intro v hv
      rcases List.mem_append.mp hv with hv | hv
      · exact Site.has hy (hhere v hv)
      · exact hvs v hv
    unfold argumentOperands
    split
    · -- a rest parameter
      have packed : Spec env w (do
          let l ← ofExcept (ArrayLayout.of p.type p.span)
          let elements ← (args.drop index).mapM fun a => generateOperand generate a l.element
          return [← arrayOfOperands l elements span]) fun vs x => ∀ v ∈ vs, x.Has v := by
        refine .bind (.ofExcept (Q := fun _ _ => True) fun _ _ => trivial) fun l x _ _ => ?_
        refine .bind (operands_spec fun a ha => h a (List.mem_of_mem_drop ha)) fun es y _ hes => ?_
        exact .bind (arrayOfOperands_spec hes) fun v z _ hv => .pure (by simpa using hv)
      have hmore := more packed
      simp only [bind_assoc, pure_bind] at hmore
      split
      · exact hmore
      · exact .bind (.internal (Q := fun _ _ => False)) fun _ _ _ hf => hf.elim
    · split
      · cases ha : args[index]? with
        | none => exact .bind (.throw (Q := fun _ _ => False)) fun _ _ _ hf => hf.elim
        | some a =>
          have hone := more (m := do return [← generateOperand generate a p.type])
            (.bind (generateOperand_spec (h a (List.mem_of_getElem? ha))) fun v x _ hv =>
              .pure (by simpa using hv))
          simp only [bind_assoc, pure_bind] at hone
          exact hone
      · exact more (.pure (by simp))

theorem emitCall_spec {signature : Signature} {receiver : Option ValueId}
    (hc : Callable env generate signature.func) (hr : ∀ a, receiver = some a → w.Has a)
    (h : ∀ a ∈ args, Yields env generate a) :
    Spec env w (emitCall generate signature receiver args span) fun v x => x.Holds v := by
  refine .bind (Spec.mapM (P := fun _ _ => True) (fun _ _ _ _ => id) ?_) fun typeArgs x hx _ => ?_
  · intro t _ y _
    exact .read rfl (.pure trivial)
  refine .bind functionDecl_spec fun decl y hy hdecl => .read rfl ?_
  refine .bind (.ofExcept (Q := fun sp _ => Specialization.Resolves env.program signature.func decl
    typeArgs args.length span sp) fun sp hsp => Specialization.resolve_ok hsp) fun sp z hz hsp => ?_
  refine .bind (argumentOperands_spec h) fun operands x₁ h₁ hops => ?_
  have hf := hsp.func_eq
  have hspec : Spec env (⟨x₁.state⟩ : Outside) (specialize generate sp span) fun _ _ => True :=
    specialize_spec (by rw [hf]; exact hc) (by rw [hf]; exact hdecl) (by rw [hf]; exact hsp)
  refine .bind hspec.outside fun callee x₂ h₂ _ => ?_
  refine .bind (callFunction_spec ?_) fun result x₃ _ hres => valueOf_spec hres
  intro u hu
  rcases List.mem_append.mp hu with hu | hu
  · exact Site.has (hx.trans (hy.trans (hz.trans (h₁.trans h₂)))) (hr u (by simpa using hu))
  · exact Site.has h₂ (hops u hu)

end Gen

end TypedLowering
