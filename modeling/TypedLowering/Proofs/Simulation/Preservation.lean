import TypedLowering.Proofs.Simulation.Statement

/-!
Preservation of meaning for functions on integers and booleans. A call of a generated function lays
out its stack cells, stores its arguments and computes its defaults, runs its body, and returns what
the evaluation of the tree gives.
-/
namespace TypedLowering
set_option autoImplicit false
open Ssa Ssa.Function

/-! ## The start of a call -/

namespace Ssa.Function

variable {F : Function} {A : Heads}

/-- The stack slots at the head of the first block get their cells one after the other. -/
theorem allocas_run (hF : F.Flow A) (todo done : List ValueId) {a : Activation}
    (hs : F.slots = done ++ todo) (hr : a.rest = todo ++ F.body entry)
    (hm : a.memory.length = done.length)
    (hc : ∀ (i : Nat) v, done[i]? = some v → a.registers v = some (.address i)) :
    ∃ a', F.Steps (.running a) (.running a') ∧ F.Ready a' ∧ a'.block = a.block ∧
      a'.rest = F.body entry ∧ ∀ v, v ∉ F.slots → a'.registers v = a.registers v := by
  induction todo generalizing done a with
  | nil =>
    rw [List.append_nil] at hs
    subst hs
    exact ⟨a, .refl, ⟨fun hi => hc _ _ hi, hm⟩, rfl, hr, fun _ _ => rfl⟩
  | cons s todo ih =>
    have hin : s ∈ F.slots := by simp [hs]
    obtain ⟨t, hdef⟩ := hF.slot hin
    have hnew : s ∉ done := by
      have hn := hF.slots_nodup
      rw [hs] at hn
      exact fun h => (List.nodup_append.mp hn).2.2 s h s List.mem_cons_self rfl
    let a₁ : Activation := { a with rest := todo ++ F.body entry }
    let a₂ : Activation :=
      { a₁.define s (.address a.memory.length) with memory := a.memory ++ [none] }
    have hstep : F.step (.running a) = some (.running a₂) := step_inst hr hdef rfl
    obtain ⟨a', hsteps, hready, hblock, hrest, hreg⟩ := ih (done ++ [s]) (a := a₂)
      (by rw [hs, List.append_assoc]; rfl) rfl (by simp [a₂, hm]) (by
        intro i v hi
        rw [List.getElem?_append] at hi
        split at hi
        · have hne : v ≠ s := by
            rintro rfl
            exact hnew (List.mem_of_getElem? hi)
          simpa [a₂, a₁, Activation.define, hne] using hc i v hi
        · next hlt =>
          obtain ⟨hk, rfl⟩ := List.getElem?_eq_some_iff.mp hi
          have hi : i = done.length := by
            simp only [List.length_singleton] at hk
            omega
          simp [a₂, a₁, Activation.define, hm, hi])
    refine ⟨a', .head hstep hsteps, hready, hblock, hrest, fun v hv => ?_⟩
    have hne : v ≠ s := by
      rintro rfl
      exact hv hin
    rw [hreg v hv]
    simp [a₂, a₁, Activation.define, hne]

/-- A call comes to the code of its first block with its cells laid out. -/
theorem start_runs (hF : F.Flow A) (args : List Datum) : ∃ c a, F.start args = some c ∧
    F.Steps c (.running a) ∧ F.Ready a ∧ a.block = entry ∧ a.rest = F.body entry ∧
    ∀ v, v ∉ F.slots → a.registers v = args[v.index]? := by
  obtain ⟨block, hblock, -⟩ := hF.shaped.exists_first
  have hblock : F.block? entry = some block := hblock
  have hinsts := insts_eq hblock
  rw [if_pos (show entry.index = 0 from rfl)] at hinsts
  let a₀ : Activation := {
    block := entry, rest := block.insts.toList, registers := fun v => args[v.index]?
    memory := [], origin := none }
  obtain ⟨a, hsteps, hready, hb, hrest, hreg⟩ := allocas_run hF F.slots []
    (a := a₀) rfl hinsts rfl (by simp)
  refine ⟨.running a₀, a, ?_, hsteps, hready, hb, hrest, hreg⟩
  show (do let block ← F.block? entry; some _) = _
  rw [hblock]
  rfl

/-- Parameters are no stack slots. -/
theorem param_notMem_slots {name word : String} {params : List Ty} {ret : Ty} {l : Linkage} {i : Nat}
    (hF : F.Completes ((shell name params ret l).addBlock word)) (hi : i < params.length) :
    param i ∉ F.slots := by
  intro hin
  obtain ⟨t, ht⟩ := hF.slot hin
  have hp : ((shell name params ret l).addBlock word).definition? (param i)
      = some ⟨.param i, params[i]⟩ := by
    simp [definition?, addBlock, shell, paramDefinitions, param, hi]
  cases (hF.values hp).symm.trans ht

/-- A call ends with one value only. -/
theorem Returns.unique {f : Function} {args : List Datum} {v v' : Option Datum}
    (h : f.Returns args v) (h' : f.Returns args v') : v = v' := by
  obtain ⟨c, hc, hsteps⟩ := h
  obtain ⟨c', hc', hsteps'⟩ := h'
  cases hc.symm.trans hc'
  have hunique : Relator.RightUnique fun c c' => f.step c = some c' :=
    fun _ _ _ h h' => Option.some.inj (h.symm.trans h')
  have last {v : Option Datum} {c : Configuration} (h : f.Steps (.returned v) c) :
      c = .returned v := by
    rcases Relation.ReflTransGen.cases_head h with rfl | ⟨d, hd, -⟩
    · rfl
    · cases hd
  rcases Relation.ReflTransGen.total_of_right_unique hunique hsteps hsteps' with h | h
  · cases last h
    rfl
  · cases last h
    rfl

end Ssa.Function

namespace Gen

variable {env : Env} {depth : Nat} {sp : Specialization} {body : Node} {span : Span}

/-! ## Parameters -/

theorem length_of_binds {params : List ResolvedParam} {args : List Word} {σ σ' : Store}
    (h : Binds params args σ σ') : args.length = (params.filter (·.supplied)).length := by
  induction h with
  | nil => rfl
  | supplied hs _ _ ih => simp [hs, ih]
  | omitted hs _ _ _ ih => simp [hs, ih]

/-- The parameters are bound to what is passed, or to the values of their defaults. -/
theorem bindParams_steers {params : List ResolvedParam} {args : List Word} {σ σ' : Store}
    {L : Layout} {next : Nat} {w : Site} {u : Unit} {s : GenState}
    (hr : env.registry.IsDiagonal) (hb : Binds params args σ σ')
    (ht : ∀ p ∈ params, p.type.isWord = true)
    (hd : ∀ p ∈ params, ∀ d, p.default = some d → d.IsPure)
    (hn : next + (params.filter (·.supplied)).length ≤ w.fn.params.length)
    (hlays : w.Lays L) (hfits : L.Fits σ)
    (h : bindParams (Gen.generate depth) next params env w.state = .ok u s) :
    ∃ (x : Site) (L' : Layout), x.state = s ∧ w.Later x.toWorld ∧ x.Lays L' ∧ L'.Fits σ' ∧
      ∀ F : Function, F.Completes x.fn → ∀ a, F.At w.toWorld a → F.Knows a (L.facts σ) →
        (∀ (j : Nat) c, args[j]? = some c →
          a.registers (Function.param (next + j)) = some (.word c)) →
        ∃ a', F.Steps (.running a) (.running a') ∧ F.At x.toWorld a' ∧
          F.Knows a' (L'.facts σ') := by
  induction hb generalizing next w L with
  | nil =>
    obtain ⟨-, rfl⟩ := pure_ok h
    exact ⟨w, L, rfl, .refl _, hlays, hfits, fun F _ a ha hk _ => ⟨a, .refl, ha, hk⟩⟩
  | @supplied p rest c args σ σ' hs htype hrest ih =>
    unfold bindParams at h
    simp only [hs, if_true] at h
    have hn : next + ((rest.filter (·.supplied)).length + 1) ≤ w.fn.params.length := by
      rw [List.filter_cons_of_pos hs] at hn
      exact hn
    have hparam : w.Has (Function.param next) := .inl (by show next < _; omega)
    obtain ⟨u₁, s₁, h₁, h⟩ := bind_ok h
    have hoff : w.Offers ((.rvalue (Function.param next) c.type, c) :: L.facts σ) := by
      refine List.forall_mem_cons.mpr ⟨⟨World.holds_rvalue.mpr hparam, rfl, rfl⟩, ?_⟩
      exact hlays.offers hfits
    obtain ⟨x, L₁, rfl, hwx, -, hlays₁, hfits₁, hrun⟩ :=
      bindLocal_steers (c := c) htype.symm List.mem_cons_self hoff hlays hfits
        (List.subset_cons_self _ _) u₁ s₁ h₁
    obtain ⟨y, L', hy, hxy, hlays', hfits', hrun'⟩ := ih
      (fun q hq => ht q (List.mem_cons_of_mem p hq)) (fun q hq => hd q (List.mem_cons_of_mem p hq))
      (by rw [hwx.grows.params]; omega) hlays₁ hfits₁ h
    refine ⟨y, L', hy, hwx.trans hxy, hlays', hfits', ?_⟩
    intro F hF a ha hk hargs
    have hhead : a.registers (Function.param next) = some (.word c) := hargs 0 c rfl
    obtain ⟨a₁, hsteps, hat, hk₁, hreg⟩ := hrun F (hF.trans hxy.completes) a ha
      (List.forall_mem_cons.mpr ⟨hhead, hk⟩)
    obtain ⟨a₂, hsteps₂, hat₂, hk₂⟩ := hrun' F hF a₁ hat hk₁ fun j c' hc => by
      have hj := hargs (j + 1) c' hc
      have hlt : (Function.param (next + (j + 1))).index < w.fn.values.size := by
        have hlen := length_of_binds hrest
        have hlen' : j < args.length := (List.getElem?_eq_some_iff.mp hc).1
        have hparams := w.flow.params
        show next + (j + 1) < _
        omega
      rw [← hreg _ hlt] at hj
      rw [Nat.add_right_comm]
      exact hj
    exact ⟨a₂, hsteps.trans hsteps₂, hat₂, hk₂⟩
  | @omitted p rest d c args σ σ' hs hdef heval hrest ih =>
    unfold bindParams at h
    simp only [hs, Bool.false_eq_true, if_false, hdef] at h
    rw [List.filter_cons_of_neg (by simp [hs])] at hn
    obtain ⟨v, s₁, h₁, h⟩ := bind_ok h
    obtain ⟨u₂, s₂, h₂, h⟩ := bind_ok h
    have hcomp := computes_of_lays depth hr hlays hfits (List.Subset.refl _)
      (hd p List.mem_cons_self d hdef) heval
    have htype : p.type = c.type :=
      type_eq_of_generateOperand hcomp (hlays.offers hfits) (ht p List.mem_cons_self) h₁
    have hbind : Steers env w (L.facts σ) L σ (do
        bindLocal p.name (← generateOperand (Gen.generate depth) d p.type) p.type p.span)
        ((p.name, c) :: σ) := by
      rw [htype]
      exact (generateOperand_performs hcomp).steers fun v x _ =>
        bindLocal_steers rfl List.mem_cons_self
    obtain ⟨x, L₁, rfl, hwx, -, hlays₁, hfits₁, hrun⟩ := hbind (hlays.offers hfits) hlays hfits
      (List.Subset.refl _) u₂ s₂ (by rw [run_bind, h₁]; exact h₂)
    obtain ⟨y, L', hy, hxy, hlays', hfits', hrun'⟩ := ih
      (fun q hq => ht q (List.mem_cons_of_mem p hq)) (fun q hq => hd q (List.mem_cons_of_mem p hq))
      (by rw [hwx.grows.params]; omega) hlays₁ hfits₁ h
    refine ⟨y, L', hy, hwx.trans hxy, hlays', hfits', ?_⟩
    intro F hF a ha hk hargs
    obtain ⟨a₁, hsteps, hat, hk₁, hreg⟩ := hrun F (hF.trans hxy.completes) a ha hk
    obtain ⟨a₂, hsteps₂, hat₂, hk₂⟩ := hrun' F hF a₁ hat hk₁ fun j c' hc => by
      have hlt : (Function.param (next + j)).index < w.fn.values.size := by
        have hlen := length_of_binds hrest
        have hlen' : j < args.length := (List.getElem?_eq_some_iff.mp hc).1
        have hparams := w.flow.params
        show next + j < _
        omega
      rw [hreg _ hlt]
      exact hargs j c' hc
    exact ⟨a₂, hsteps.trans hsteps₂, hat₂, hk₂⟩

/-! ## Bodies -/

/-- A body returns what the call gives. -/
theorem bodyRest_returns {args : List Word} {result : Option Word} {w : Site} {u : Unit}
    {s : GenState} (hr : env.registry.IsDiagonal) (hs : sp.IsStructured body)
    (he : sp.Evaluates body args result) (hlays : w.Lays [])
    (hret : w.frame.returnType = sp.ret)
    (hn : (if sp.isInstance then 1 else 0) + sp.suppliedParams.length ≤ w.fn.params.length)
    (h : bodyRest (Gen.generate depth) sp body env w.state = .ok u s) :
    ∃ y : World, y.state = s ∧ w.Later y ∧ ∀ F : Function, F.Completes y.fn → ∀ a,
      F.At w.toWorld a → (∀ (j : Nat) c, args[j]? = some c →
        a.registers (Function.param ((if sp.isInstance then 1 else 0) + j)) = some (.word c)) →
      F.Steps (.running a) (.returned (result.map .word)) := by
  obtain ⟨σ, o, σ', hbinds, hexec, hresult⟩ := he
  obtain ⟨u₁, s₁, h₁, h⟩ := bind_ok h
  obtain ⟨x, L, rfl, hwx, hlaysx, hfits, hrun⟩ :=
    bindParams_steers hr hbinds hs.params hs.defaults hn hlays .nil h₁
  obtain ⟨v, s₂, h₂, h⟩ := bind_ok h
  obtain ⟨y, L', rfl, hxy, -, hsim⟩ := executes_carries hr hexec hs.body hlaysx hfits h₂
  obtain ⟨z, hz, hyz, hfinish⟩ := finishBody_spec u s h
  refine ⟨z, hz, hwx.trans (hxy.trans hyz.1), ?_⟩
  intro F hF a ha hargs
  have hFy : F.Completes y.fn := hF.trans hyz.1.completes
  obtain ⟨a₁, hsteps, hat, hk⟩ :=
    hrun F (hFy.trans hxy.completes) a ha (by simp [Knows, Layout.facts]) hargs
  have hreach := hsim.runs F hFy a₁ hat hk
  have hretx : x.frame.returnType = sp.ret := hwx.ret_eq.trans hret
  refine hsteps.trans ?_
  cases o with
  | normal =>
    have hvoid : sp.ret = .void ∧ result = none := by
      cases ht : sp.ret <;> rw [ht] at hresult <;> cases hresult
      exact ⟨rfl, rfl⟩
    obtain ⟨hvoid, rfl⟩ := hvoid
    obtain ⟨a₂, hsteps₂, hat₂, -⟩ := hreach
    have hend := (hfinish (hsim.ends rfl).2 (hxy.ret_eq.trans (hretx.trans hvoid))).completed hF
    exact hsteps₂.trans (.single ((hat₂.step_leave hend).trans rfl))
  | breaks | continues => cases hresult
  | returns value =>
    have hvalue : result.map Datum.word
        = if x.frame.returnType = .void then none else value.map .word := by
      rw [Outcome.result?_returns hresult, hretx]
      split <;> rfl
    rw [hvalue]
    exact hreach

/-! ## Specializations -/

/-- What a request for a function with a body comes to. -/
theorem specialize_ok {generate : Generate} {decl : FunctionDecl} {s s' : GenState}
    {id : FunctionId} (hdecl : env.program.function? sp.func = some decl)
    (hbody : decl.body = some body) (h : specialize generate sp span env s = .ok id s') :
    ∃ params ret, sp.loweredParams = .ok params ∧
      (match s.unit.specializations.get? (sp.symbol env.program) with
      | some id => do
        modifyUnit fun u =>
          { u with cacheHits := u.cacheHits + 1, requests := ⟨sp, id, true⟩ :: u.requests }
        return id
      | none => do
        let id ← enterDefinition sp (sp.symbol env.program) params ret
        inFunction id sp.subst sp.ret (generateBody generate sp body span)
        return id : Gen FunctionId) env s = .ok id s' := by
  obtain ⟨params, s₁, h₁, h⟩ := bind_ok h
  obtain ⟨hparams, hs₁⟩ := ofExcept_ok h₁
  rw [hs₁] at h
  obtain ⟨ret, s₂, h₂, h⟩ := bind_ok h
  rw [(ofExcept_ok h₂).2] at h
  obtain ⟨decl', s₃, h₃, h⟩ := bind_ok h
  obtain ⟨hdecl', hs₃⟩ : decl' = decl ∧ s₃ = s := by
    obtain ⟨p, s₄, h₄, h₃⟩ := bind_ok h₃
    cases h₄
    rw [hdecl] at h₃
    exact pure_ok h₃
  rw [hdecl', hs₃, hbody] at h
  obtain ⟨p, s₄, h₄, h⟩ := bind_ok h
  cases h₄
  obtain ⟨st, s₅, h₅, h⟩ := bind_ok h
  cases h₅
  exact ⟨params, ret, hparams, h⟩

/-- A request for a specialization that is not there yet. -/
theorem specialize_new {generate : Generate} {decl : FunctionDecl} {s s' : GenState}
    {id : FunctionId} (hdecl : env.program.function? sp.func = some decl)
    (hbody : decl.body = some body)
    (hnew : s.unit.specializations.get? (sp.symbol env.program) = none)
    (h : specialize generate sp span env s = .ok id s') :
    ∃ (params : List Ty) (ret : Ty) (s₁ : GenState), sp.loweredParams = .ok params ∧
      id = s.unit.module.nextFunction ∧ s₁.unit.module = s.unit.module.addFunction
        (.shell (sp.symbol env.program) params ret .internal) ∧
      inFunction id sp.subst sp.ret (generateBody generate sp body span) env s₁ = .ok () s' := by
  obtain ⟨params, ret, hparams, h⟩ := specialize_ok hdecl hbody h
  rw [hnew] at h
  obtain ⟨id', s₁, h₁, h⟩ := bind_ok h
  obtain ⟨rfl, -, hm⟩ := enterDefinition_ok h₁
  obtain ⟨u, s₂, h₂, h⟩ := bind_ok h
  obtain ⟨rfl, rfl⟩ := pure_ok h
  exact ⟨params, ret, s₁, hparams, rfl, hm, h₂⟩

/-- A request for a specialization that is there already leaves the module as it is. -/
theorem specialize_cached {generate : Generate} {decl : FunctionDecl} {s s' : GenState}
    {id id' : FunctionId} (hdecl : env.program.function? sp.func = some decl)
    (hbody : decl.body = some body)
    (hold : s.unit.specializations.get? (sp.symbol env.program) = some id')
    (h : specialize generate sp span env s = .ok id s') :
    id = id' ∧ s'.unit.module = s.unit.module := by
  obtain ⟨params, ret, -, h⟩ := specialize_ok hdecl hbody h
  rw [hold] at h
  obtain ⟨u, s₁, h₁, h⟩ := bind_ok h
  cases h₁
  obtain ⟨rfl, rfl⟩ := pure_ok h
  exact ⟨rfl, rfl⟩

/-- The function that is generated for a first request returns what the call gives. -/
theorem specialize_new_returns {decl : FunctionDecl} {s s' : GenState} {id : FunctionId}
    {args : List Word} {result : Option Word} (hr : env.registry.IsDiagonal)
    (hdecl : env.program.function? sp.func = some decl) (hbody : decl.body = some body)
    (hs : sp.IsStructured body)
    (hnew : s.unit.specializations.get? (sp.symbol env.program) = none)
    (h : specialize (Gen.generate depth) sp span env s = .ok id s')
    (he : sp.Evaluates body args result) :
    ∃ F, s'.unit.module.function? id = some F ∧ ∀ receiver,
      F.Returns (sp.loweredArgs receiver args) (result.map .word) := by
  obtain ⟨params, ret, s₁, hparams, rfl, hm, hrun⟩ := specialize_new hdecl hbody hnew h
  obtain ⟨x, s₂, hframe, -, hfn, hgen, rfl⟩ := inFunction_ok hm hrun
  have hlen : x.fn.params.length = (if sp.isInstance then 1 else 0) + sp.suppliedParams.length := by
    rw [hfn, ← Specialization.length_loweredParams hparams]
    rfl
  obtain ⟨y, hxy, hrest⟩ := generateBody_ok (by intro hi; rw [hlen, if_pos hi]; omega) hgen
  obtain ⟨this, hthis⟩ := hxy.frame
  rw [hframe] at hthis
  have hret : y.frame.returnType = sp.ret := by rw [hthis]
  have hlays : y.Lays [] := {
    scope := by simp
    has := by simp
    slots := List.nodup_nil
    ret := by rw [hret]; exact hs.ret }
  have hn := Nat.le_of_eq hlen.symm
  rw [← hxy.fn] at hn
  obtain ⟨z, rfl, hyz, hreturns⟩ := bodyRest_returns hr hs he hlays hret hn hrest
  have hz := z.current
  rw [hyz.function_eq, hthis] at hz
  refine ⟨z.fn, hz, fun receiver => ?_⟩
  obtain ⟨c, a, hstart, hsteps, hready, hblock, hbody, hreg⟩ :=
    start_runs z.flow (sp.loweredArgs receiver args)
  refine ⟨c, hstart, hsteps.trans (hreturns z.fn (.refl z.flow) a ?_ ?_)⟩
  · have hentry : y.block = entry := congrArg Frame.block hthis
    refine { toReady := hready, block := hblock.trans hentry.symm, rest := ?_ }
    rw [hentry, hbody, hxy.fn, hfn]
    rfl
  · intro j c hc
    have hj : j < sp.suppliedParams.length := by
      obtain ⟨σ, o, σ', hbinds, -⟩ := he
      rw [Specialization.suppliedParams, ← length_of_binds hbinds]
      exact (List.getElem?_eq_some_iff.mp hc).1
    have hparam : Function.param ((if sp.isInstance then 1 else 0) + j) ∉ z.fn.slots := by
      have hcomp := hyz.completes
      rw [hxy.fn, hfn] at hcomp
      exact param_notMem_slots hcomp
        (by rw [Specialization.length_loweredParams hparams]; omega)
    rw [hreg _ hparam]
    exact (sp.getElem?_loweredArgs receiver args j).trans (by rw [hc]; rfl)

end Gen

/-! ## Preservation of meaning -/

/-- If the symbol of a specialization is in the table, an earlier request for this specialization has
entered it there, and functions that are finished stay as they are. -/
def Specialization.Remembered (sp : Specialization) (env : Env) (s : GenState) : Prop :=
  ∀ id, s.unit.specializations.get? (sp.symbol env.program) = some id → ∃ depth span s₁ s₂,
    s₁.unit.specializations.get? (sp.symbol env.program) = none ∧
    Gen.specialize (Gen.generate depth) sp span env s₁ = .ok id s₂ ∧
    s₂.unit.module.Extends s.unit.module fun _ => False

/-- A function on integers and booleans returns, when it is called, what the evaluation of its tree
gives, and nothing else. -/
theorem specialize_returns {env : Env} {depth : Nat} {sp : Specialization} {decl : FunctionDecl}
    {body : Node} {span : Span} {s s' : GenState} {id : FunctionId} {args : List Word}
    {result : Option Word} (hr : env.registry.IsDiagonal)
    (hdecl : env.program.function? sp.func = some decl) (hbody : decl.body = some body)
    (hs : sp.IsStructured body) (hm : sp.Remembered env s)
    (h : Gen.specialize (Gen.generate depth) sp span env s = .ok id s')
    (he : sp.Evaluates body args result) :
    ∃ F, s'.unit.module.function? id = some F ∧ ∀ receiver value,
      F.Returns (sp.loweredArgs receiver args) value ↔ value = result.map .word := by
  have hreturns : ∃ F, s'.unit.module.function? id = some F ∧ ∀ receiver,
      F.Returns (sp.loweredArgs receiver args) (result.map .word) := by
    cases ht : s.unit.specializations.get? (sp.symbol env.program) with
    | none => exact Gen.specialize_new_returns hr hdecl hbody hs ht h he
    | some id' =>
      obtain ⟨rfl, hmodule⟩ := Gen.specialize_cached hdecl hbody ht h
      obtain ⟨depth', span', s₁, s₂, hnew, hfirst, hext⟩ := hm _ ht
      obtain ⟨F, hF, hruns⟩ := Gen.specialize_new_returns hr hdecl hbody hs hnew hfirst he
      rw [hmodule]
      exact ⟨F, hext.kept (by simp) hF, hruns⟩
  obtain ⟨F, hF, hruns⟩ := hreturns
  refine ⟨F, hF, fun receiver value => ⟨fun hv => hv.unique (hruns receiver), ?_⟩⟩
  rintro rfl
  exact hruns receiver

namespace Countdown

/-! A function that counts down: `while (n > 0 && n < 9) { n -= 1 } return n`. -/

def node (t : StaticType) (form : Form Node) : Node := .mk ⟨0⟩ .dummy t form

def count : Node := node .int (.identifier "n")

def literal (text : String) : Node := node .int (.numericLiteral text)

def test : Node :=
  node .boolean (.binary .and (node .boolean (.binary .gt count (literal "0")))
    (node .boolean (.binary .lt count (literal "9"))))

def assign : Node := node .int (.assign (some .sub) count (literal "1"))

def turn : Node := node .void (.block [node .void (.expressionStatement assign)])

def body : Node :=
  node .void (.block [node .void (.whileLoop test turn), node .void (.ret (some count))])

def decl : FunctionDecl := {
  name := "countdown"
  params := [{ name := "n", type := .int }]
  ret := .int
  body := some body }

def env : Env := { program := { functions := #[decl] }, config := {}, registry := .standard }

def specialization : Specialization := {
  func := ⟨0⟩, name := "countdown", owner := none
  params := [{ name := "n", type := .int, optional := false, variadic := false, default := none
               supplied := true, span := .dummy }]
  ret := .int, isInstance := false, typeArgs := [], subst := .empty }

def start : GenState := { unit := { module := { name := "countdown" } }, frame := .outside }

theorem isPure_count : count.IsPure := .identifier rfl

theorem isPure_literal (text : String) : (literal text).IsPure := .numericLiteral rfl rfl

theorem isPure_test : test.IsPure :=
  .binary rfl rfl (.binary rfl rfl isPure_count (isPure_literal "0"))
    (.binary rfl rfl isPure_count (isPure_literal "9"))

theorem isStructured_turn : turn.IsStructured .statement := by
  refine .block rfl ?_
  intro m hm
  cases List.mem_singleton.mp hm
  exact .item (.expressionStatement rfl (.compound rfl rfl rfl (isPure_literal "1")))

theorem isStructured_specialization : specialization.IsStructured body where
  params := by simp [specialization, StaticType.isWord]
  defaults := by simp [specialization]
  ret := .inr rfl
  body := by
    refine .item (.block rfl ?_)
    intro m hm
    rcases List.mem_cons.mp hm with rfl | hm
    · exact .item (.whileLoop rfl isPure_test isStructured_turn)
    · cases List.mem_singleton.mp hm
      refine .item (.ret rfl ?_)
      rintro _ ⟨⟩
      exact isPure_count

theorem evaluates_literal {σ : Store} {text : String} {i : Int} (h : NumericText.int? text = some i) :
    (literal text).Evaluates σ (.int (.ofInt 32 i)) := .numericLiteral rfl h

/-- A call with 1 makes one turn. -/
theorem evaluates_one : specialization.Evaluates body [.int 1] (some (.int 0)) := by
  have zero {σ : Store} : (literal "0").Evaluates σ (.int 0) :=
    evaluates_literal (i := 0) (by decide +kernel)
  have one {σ : Store} : (literal "1").Evaluates σ (.int 1) :=
    evaluates_literal (i := 1) (by decide +kernel)
  have nine {σ : Store} : (literal "9").Evaluates σ (.int 9) :=
    evaluates_literal (i := 9) (by decide +kernel)
  have goes : test.Evaluates [("n", .int 1)] (.bool true) :=
    .goOn rfl rfl (.binary rfl (.identifier rfl rfl) zero rfl)
      (.binary rfl (.identifier rfl rfl) nine rfl)
  have stops : test.Evaluates [("n", .int 0)] (.bool false) :=
    .stop rfl rfl (.binary rfl (.identifier rfl rfl) zero rfl)
  have assigns : Executes (.node assign) [("n", .int 1)] .normal
      (Store.set [("n", .int 1)] "n" (.int 0)) := .compound rfl rfl rfl one rfl
  have turns := Executes.block (n := turn) rfl (.cons (.expressionStatement rfl assigns) .nil)
  have turns : Executes (.node turn) [("n", .int 1)] .normal [("n", .int 0)] := turns
  have loops : Executes (.loop (some test) none turn) [("n", .int 1)] .normal [("n", .int 0)] := by
    refine .loopNext ?_ turns (.inl rfl) .none (.loopEnd stops)
    rintro _ ⟨⟩
    exact goes
  have returns : Executes (.list [node .void (.ret (some count))]) [("n", .int 0)]
      (.returns (some (.int 0))) [("n", .int 0)] :=
    .consStop (.retValue rfl (.identifier rfl rfl)) (by simp)
  exact ⟨_, _, _, .supplied rfl rfl .nil, .block rfl (.cons (.whileLoop rfl loops) returns), rfl⟩

theorem exists_specialize_start : ∃ id s',
    Gen.specialize (Gen.generate 8) specialization .dummy env start = .ok id s' :=
  Gen.exists_of_succeeds (by decide +kernel)

theorem specialize_returns_zero : ∃ id s' F,
    Gen.specialize (Gen.generate 8) specialization .dummy env start = .ok id s' ∧
      s'.unit.module.function? id = some F ∧ ∀ receiver value,
        F.Returns (specialization.loweredArgs receiver [.int 1]) value ↔
          value = some (.word (.int 0)) := by
  obtain ⟨id, s', h⟩ := exists_specialize_start
  obtain ⟨F, hF, hreturns⟩ := specialize_returns Registry.isDiagonal_standard
    (show env.program.function? specialization.func = some decl from rfl) rfl
    isStructured_specialization (by intro id hid; cases hid) h evaluates_one
  exact ⟨id, s', F, h, hF, hreturns⟩

end Countdown

end TypedLowering
