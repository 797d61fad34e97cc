import TypedLowering.Proofs.Flow.Emission
import TypedLowering.Proofs.Lowering.Generators

/-!
What a run leaves as it is, whether it succeeds or fails: the functions other than the one that is
being generated, and the entries in the table of specializations. A request for a specialization
leaves even the current function alone.
-/
namespace TypedLowering
set_option autoImplicit false
open Ssa

/-! ## Functions of a module -/

theorem Ssa.Module.ne_nextFunction {m : Module} {id : FunctionId} {f : Function}
    (h : m.function? id = some f) : id ≠ m.nextFunction := by
  rintro rfl
  simp [function?, nextFunction] at h

/-- Functions outside `own` are as they were, and those that are new have `New`. -/
structure Ssa.Module.Adds (m m' : Module) (own : FunctionId → Prop) (New : Function → Prop) :
    Prop where
  kept : ∀ {id f}, ¬ own id → m.function? id = some f → m'.function? id = some f
  added : ∀ {id f}, ¬ own id → m'.function? id = some f → m.function? id = some f ∨ New f

namespace Ssa.Module.Adds

variable {m m' m'' : Module} {own : FunctionId → Prop} {New : Function → Prop}

theorem refl (m : Module) (own : FunctionId → Prop) (New : Function → Prop) : m.Adds m own New :=
  ⟨fun _ => id, fun _ => .inl⟩

theorem trans (h : m.Adds m' own New) (h' : m'.Adds m'' own New) : m.Adds m'' own New where
  kept := fun hn hf => h'.kept hn (h.kept hn hf)
  added := by
    intro id f hn hf
    rcases h'.added hn hf with hf | hf
    · exact h.added hn hf
    · exact .inr hf

theorem weaken {own' : FunctionId → Prop} (h : m.Adds m' own New) (ho : ∀ id, own id → own' id) :
    m.Adds m' own' New where
  kept := fun hn => h.kept fun ho' => hn (ho _ ho')
  added := fun hn => h.added fun ho' => hn (ho _ ho')

theorem of_functions_eq (h : m'.functions = m.functions) : m.Adds m' own New where
  kept := fun _ hf => by
    unfold function? at hf ⊢
    rwa [h]
  added := fun _ hf => by
    unfold function? at hf ⊢
    rw [h] at hf
    exact .inl hf

theorem modifyFunction (m : Module) (id : FunctionId) (g : Function → Function) :
    m.Adds (m.modifyFunction id g) (· = id) New where
  kept := by
    intro id' f hn hf
    rw [m.function?_modifyFunction, if_neg (Ne.symm hn)]
    exact hf
  added := by
    intro id' f hn hf
    rw [m.function?_modifyFunction, if_neg (Ne.symm hn)] at hf
    exact .inl hf

theorem addFunction (m : Module) {f : Function} (hf : New f) : m.Adds (m.addFunction f) own New where
  kept := by
    intro id g _ hg
    rw [m.function?_addFunction_of_ne (ne_nextFunction hg)]
    exact hg
  added := by
    intro id g _ hg
    by_cases hne : id = m.nextFunction
    · rw [hne, m.function?_addFunction_next] at hg
      cases hg
      exact .inr hf
    · rw [m.function?_addFunction_of_ne hne] at hg
      exact .inl hg

theorem declare {name : String} {params : List Ty} {ret : Ty} {attrs : Attributes} {variadic : Bool}
    {id : FunctionId} (h : m.declare name params ret attrs variadic = .ok (id, m'))
    (hn : ∀ f : Function, f.blocks = #[] → New f) : m.Adds m' own New := by
  rcases declare_cases h with ⟨-, rfl, rfl⟩ | ⟨-, rfl, -⟩
  · exact .addFunction m (hn _ rfl)
  · exact .refl _ _ _

end Ssa.Module.Adds

/-! ## Requests for specializations -/

namespace GenState

theorem function?_mapFunction (s : GenState) {f : Function}
    (h : s.unit.module.function? s.frame.function = some f) (g : Function → Function) :
    (s.mapFunction g).unit.module.function? s.frame.function = some (g f) := by
  show (s.unit.module.modifyFunction s.frame.function g).function? s.frame.function = _
  rw [Module.function?_modifyFunction, if_pos rfl, h]
  rfl

/-- A block that is added is the next one, and it is in the function. -/
theorem hasBlock_mapFunction_addBlock {s t : GenState} {f : Function} {word : String}
    (h : s.unit.module.function? s.frame.function = some f)
    (ht : t = s.mapFunction fun f => f.addBlock word) :
    ∃ g, t.unit.module.function? t.frame.function = some g ∧
      g.HasBlock (s.query .absent Function.nextBlock) := by
  subst ht
  refine ⟨f.addBlock word, ?_, (Function.hasBlock_addBlock word).mpr (.inr (s.query_eq h))⟩
  exact s.function?_mapFunction h _

/-- The state after a request that the table answers. -/
def recalled (s : GenState) (sp : Specialization) (id : FunctionId) : GenState :=
  { s with unit := { s.unit with
      cacheHits := s.unit.cacheHits + 1
      requests := ⟨sp, id, true⟩ :: s.unit.requests } }

/-- The state in which the body of a specialization is generated, if the table has no answer. -/
def started (s : GenState) (sp : Specialization) (symbol : String) (params : List Ty) (ret : Ty) :
    GenState :=
  let id := s.unit.module.nextFunction
  { unit := { s.unit with
      module := s.unit.module.addFunction
        ((Function.shell symbol params ret .internal).addBlock "entry")
      specializations := s.unit.specializations.insert symbol id
      generated := s.unit.generated + 1
      requests := ⟨sp, id, false⟩ :: s.unit.requests }
    frame := { Frame.outside with
      function := id, block := Function.entry, subst := sp.subst, returnType := sp.ret } }

end GenState

theorem Ssa.Module.modifyFunction_addFunction (m : Module) {f : Function} {g : Function → Function}
    (hg : (g f).name = f.name) :
    (m.addFunction f).modifyFunction m.nextFunction g = m.addFunction (g f) := by
  have hf : (m.functions.push f).modify m.functions.size g = m.functions.push (g f) := by
    ext i hi hi'
    · simp
    · simp only [Array.getElem_modify, Array.getElem_push]
      split <;> split <;> simp_all <;> omega
  simp [modifyFunction, addFunction, nextFunction, hf, hg]

namespace Gen

variable {env : Env} {generate : Generate} {sp : Specialization} {span : Span} {s : GenState}

theorem inFunction_leads {id : FunctionId} {f : Function} {subst : Substitution}
    {returnType : StaticType} {body : Gen Unit} {Q : Unit → GenState → Prop}
    {E : Failure → GenState → Prop} (hf : s.unit.module.function? id = some f)
    (h : Leads env
      { unit := { s.unit with
          module := s.unit.module.modifyFunction id fun f => f.addBlock "entry" }
        frame := { Frame.outside with function := id, block := f.nextBlock, subst, returnType } }
      body (fun _ s' => Q () ⟨s'.unit, s.frame⟩) E) :
    Leads env s (inFunction id subst returnType body) Q E := by
  refine .read rfl ?_
  let t : GenState := { s with frame := { Frame.outside with function := id, subst, returnType } }
  have hq : t.query .absent Function.nextBlock = f.nextBlock := t.query_eq hf
  refine Leads.bind (Q := fun _ s' => t = s') (.of_ok rfl rfl) ?_
  rintro _ _ - rfl
  refine Leads.bind
    (Q := fun b s' => f.nextBlock = b ∧ t.mapFunction (fun f => f.addBlock "entry") = s')
    (.of_ok rfl ⟨hq.symm, rfl⟩) ?_
  rintro _ _ - ⟨rfl, rfl⟩
  refine Leads.bind (Q := fun _ s' => _ = s') (.of_ok rfl rfl) ?_
  rintro _ _ - rfl
  exact Leads.bind h fun _ s' _ hs' => .of_ok rfl hs'

/-- The part of a request that concerns a function with a body: the table answers it, or the body is
generated. -/
def requestDefinition (generate : Generate) (sp : Specialization) (body : Node) (params : List Ty)
    (ret : Ty) (span : Span) : Gen FunctionId := do
  let symbol := sp.symbol (← program)
  match (← get).unit.specializations.get? symbol with
  | some id =>
    modifyUnit fun u =>
      { u with cacheHits := u.cacheHits + 1, requests := ⟨sp, id, true⟩ :: u.requests }
    return id
  | none =>
    let id ← enterDefinition sp symbol params ret
    inFunction id sp.subst sp.ret (generateBody generate sp body span)
    return id

theorem requestDefinition_leads {body : Node} {params : List Ty} {ret : Ty}
    {Q : FunctionId → GenState → Prop} {E : Failure → GenState → Prop}
    (cached : ∀ id, s.unit.specializations.get? (sp.symbol env.program) = some id →
      Q id (s.recalled sp id))
    (fresh : s.unit.specializations.get? (sp.symbol env.program) = none →
      Leads env (s.started sp (sp.symbol env.program) params ret)
        (generateBody generate sp body span)
        (fun _ s' => Q s.unit.module.nextFunction ⟨s'.unit, s.frame⟩) E) :
    Leads env s (requestDefinition generate sp body params ret span) Q E := by
  refine .read rfl (.read rfl ?_)
  split
  · next id hid => exact .of_ok rfl (cached id hid)
  · next hnone =>
    refine Leads.bind (Q := fun id s' => s.unit.module.nextFunction = id ∧ _ = s')
      (.of_ok rfl ⟨rfl, rfl⟩) ?_
    rintro _ _ - ⟨rfl, rfl⟩
    refine Leads.bind (Q := fun _ s' => Q s.unit.module.nextFunction s') ?_
      fun _ _ _ h => .pure h
    refine inFunction_leads (s.unit.module.function?_addFunction_next _) ?_
    have hm := s.unit.module.modifyFunction_addFunction
      (f := .shell (sp.symbol env.program) params ret .internal)
      (g := fun f => f.addBlock "entry") rfl
    have h := fresh hnone
    unfold GenState.started at h
    rw [← hm] at h
    exact h

/-- What a request for a definition does. -/
theorem requestDefinition_run (s : GenState) (body : Node) (params : List Ty) (ret : Ty) :
    requestDefinition generate sp body params ret span env s =
      match s.unit.specializations.get? (sp.symbol env.program) with
      | some id => .ok id (s.recalled sp id)
      | none =>
        match generateBody generate sp body span env
            (s.started sp (sp.symbol env.program) params ret) with
        | .ok _ t => .ok s.unit.module.nextFunction ⟨t.unit, s.frame⟩
        | .error e t => .error e t := by
  refine Leads.run_eq (requestDefinition_leads (fun id hid => ?_) fun hnone => ?_)
  · rw [hid]
  · rw [hnone]
    refine .intro (fun _ t hrun => ?_) fun e t hrun => ?_
    · rw [hrun]
    · rw [hrun]

/-- What a request comes to: it is refused, or concerns a function that is defined elsewhere, or a
definition. -/
theorem specialize_cases {Q : FunctionId → GenState → Prop} {E : Failure → GenState → Prop}
    (refused : (¬ ∃ params ret decl, sp.loweredParams = .ok params ∧
      sp.ret.lowered span = .ok ret ∧ env.program.function? sp.func = some decl) →
      ∀ e, e ≠ .misplaced → E e s)
    (declared : ∀ decl params ret, env.program.function? sp.func = some decl → decl.body = none →
      sp.loweredParams = .ok params → sp.ret.lowered span = .ok ret →
      Leads env s (declareExternal sp.name params ret .none false span) Q E)
    (defined : ∀ decl body params ret, env.program.function? sp.func = some decl →
      decl.body = some body → sp.loweredParams = .ok params → sp.ret.lowered span = .ok ret →
      Leads env s (requestDefinition generate sp body params ret span) Q E) :
    Leads env s (specialize generate sp span) Q E := by
  refine Leads.bind (Q := fun params s' => sp.loweredParams = .ok params ∧ s = s')
    (.ofExcept (fun params h => ⟨h, rfl⟩) fun e he => refused ?_ _ (by simp)) ?_
  · rintro ⟨params, _, _, hparams, -⟩
    cases he.symm.trans hparams
  rintro params _ - ⟨hparams, rfl⟩
  refine Leads.bind (Q := fun ret s' => sp.ret.lowered span = .ok ret ∧ s = s')
    (.ofExcept (fun ret h => ⟨h, rfl⟩) fun e he => refused ?_ _ (by simp)) ?_
  · rintro ⟨_, ret, _, -, hret, -⟩
    cases he.symm.trans hret
  rintro ret _ - ⟨hret, rfl⟩
  refine Leads.bind (Q := fun d s' => env.program.function? sp.func = some d ∧ s = s')
    (.functionDecl (fun d h => ⟨h, rfl⟩) fun hnone => refused ?_ _ (by simp)) ?_
  · rintro ⟨_, _, decl, -, -, hdecl⟩
    cases hnone.symm.trans hdecl
  rintro decl _ - ⟨hdecl, rfl⟩
  split
  · next hbody => exact declared decl params ret hdecl hbody hparams hret
  · next body hbody => exact defined decl body params ret hdecl hbody hparams hret

/-- The cases of a request, where a definition is answered by the table, or the body is generated in a
function of its own. -/
theorem specialize_leads {Q : FunctionId → GenState → Prop} {E : Failure → GenState → Prop}
    (refused : (¬ ∃ params ret decl, sp.loweredParams = .ok params ∧
      sp.ret.lowered span = .ok ret ∧ env.program.function? sp.func = some decl) →
      ∀ e, e ≠ .misplaced → E e s)
    (declared : ∀ decl params ret, env.program.function? sp.func = some decl → decl.body = none →
      sp.loweredParams = .ok params → sp.ret.lowered span = .ok ret →
      Leads env s (declareExternal sp.name params ret .none false span) Q E)
    (cached : ∀ decl body params id, env.program.function? sp.func = some decl →
      decl.body = some body → sp.loweredParams = .ok params →
      s.unit.specializations.get? (sp.symbol env.program) = some id → Q id (s.recalled sp id))
    (fresh : ∀ decl body params ret, env.program.function? sp.func = some decl →
      decl.body = some body → sp.loweredParams = .ok params → sp.ret.lowered span = .ok ret →
      s.unit.specializations.get? (sp.symbol env.program) = none →
      Leads env (s.started sp (sp.symbol env.program) params ret)
        (generateBody generate sp body span)
        (fun _ s' => Q s.unit.module.nextFunction ⟨s'.unit, s.frame⟩) E) :
    Leads env s (specialize generate sp span) Q E :=
  specialize_cases refused declared fun decl body params ret hdecl hbody hparams hret =>
    requestDefinition_leads (fun id => cached decl body params id hdecl hbody hparams)
      (fresh decl body params ret hdecl hbody hparams hret)

end Gen

/-! ## What stays -/

/-- Functions outside `own` and the entries of the table are as they were. -/
structure UnitState.Keeps (u u' : UnitState) (own : FunctionId → Prop) : Prop where
  functions : u.module.Adds u'.module own fun _ => True
  table : ∀ {symbol id}, u.specializations.get? symbol = some id →
    u'.specializations.get? symbol = some id

namespace UnitState.Keeps

variable {u u' u'' : UnitState} {own : FunctionId → Prop}

theorem refl (u : UnitState) (own : FunctionId → Prop) : u.Keeps u own := ⟨.refl _ _ _, id⟩

theorem trans (h : u.Keeps u' own) (h' : u'.Keeps u'' own) : u.Keeps u'' own :=
  ⟨h.functions.trans h'.functions, fun hi => h'.table (h.table hi)⟩

theorem weaken (h : u.Keeps u' fun _ => False) : u.Keeps u' own :=
  ⟨h.functions.weaken fun _ => False.elim, h.table⟩

theorem of_alike {s s' : GenState} (h : s.Alike s') : s.unit.Keeps s'.unit own :=
  ⟨.of_functions_eq h.functions, fun hi => by rw [h.specializations]; exact hi⟩

theorem mapFunction (s : GenState) (g : Function → Function) :
    s.unit.Keeps (s.mapFunction g).unit (· = s.frame.function) :=
  ⟨.modifyFunction _ _ _, id⟩

end UnitState.Keeps

namespace Gen

variable {α β : Type} {env : Env} {generate : Generate} {sp : Specialization} {span : Span}
  {s : GenState}

/-- Every run of `m` keeps what does not belong to the current function. -/
def Persists (env : Env) (α : Type) (m : Gen α) : Prop :=
  ∀ s, Leads env s m
    (fun _ s' => s.unit.Keeps s'.unit (· = s.frame.function) ∧
      s'.frame.function = s.frame.function)
    fun _ s' => s.unit.Keeps s'.unit (· = s.frame.function)

namespace Persists

theorem aside {m : Gen α} (hm : Aside env m) : Persists env α m := fun s =>
  (hm s).mono (fun _ _ h => ⟨.of_alike h, congrArg Frame.function h.frame⟩) fun _ _ h => .of_alike h.2

protected theorem bind {m : Gen α} {f : α → Gen β} (hm : Persists env α m)
    (hf : ∀ a, (∃ s s', m env s = .ok a s') → Persists env β (f a)) :
    Persists env β (m >>= f) := by
  intro s
  refine (hm s).bind fun a s₁ hrun h₁ => ?_
  have hown := h₁.2
  refine (hf a ⟨s, s₁, hrun⟩ s₁).mono ?_ ?_
  · rintro b s₂ ⟨h₂, hfn⟩
    rw [hown] at h₂
    exact ⟨h₁.1.trans h₂, hfn.trans hown⟩
  · intro e s₂ h₂
    rw [hown] at h₂
    exact h₁.1.trans h₂

/-- A step on the current function. -/
theorem step {m : Gen α} (h : ∀ s, ∃ a g, m env s = .ok a (s.mapFunction g)) :
    Persists env α m := by
  intro s
  obtain ⟨a, g, hm⟩ := h s
  exact .of_ok hm ⟨.mapFunction s g, rfl⟩

theorem requireOpen : Persists env Unit requireOpen := by
  intro s
  refine .read rfl ?_
  split
  · exact .of_error rfl (.refl _ _)
  · exact .pure ⟨.refl _ _, rfl⟩

theorem declareExternal_keeps (name : String) (params : List Ty) (ret : Ty) (attrs : Attributes)
    (variadic : Bool) (span : Span) (own : FunctionId → Prop) :
    Leads env s (declareExternal name params ret attrs variadic span)
      (fun _ s' => s.unit.Keeps s'.unit own ∧ s'.frame = s.frame)
      fun _ s' => s.unit.Keeps s'.unit own := by
  refine .read rfl ?_
  split
  · next m hm => exact .of_ok rfl ⟨⟨.declare hm fun _ _ => trivial, id⟩, rfl⟩
  · exact .of_error rfl (.refl _ _)

/-- What has been there before a definition was entered is kept if only the definition has changed. -/
theorem keeps_of_started {symbol : String} {params : List Ty} {ret : Ty} {u : UnitState}
    (hnone : s.unit.specializations.get? symbol = none)
    (h : (s.started sp symbol params ret).unit.Keeps u (· = s.unit.module.nextFunction)) :
    s.unit.Keeps u fun _ => False := by
  have hnew : s.unit.module.Adds _ (fun _ => False) fun _ => True :=
    .addFunction s.unit.module (f := (Function.shell symbol params ret .internal).addBlock "entry")
      trivial
  refine ⟨⟨?_, fun _ _ => .inr trivial⟩, ?_⟩
  · intro id f _ hf
    exact h.functions.kept (Module.ne_nextFunction hf) (hnew.kept not_false hf)
  · intro other id hid
    refine h.table ?_
    have hne : symbol ≠ other := by
      rintro rfl
      rw [hnone] at hid
      cases hid
    exact (Dict.get?_insert_of_ne _ _ hne).trans hid

/-- A request for a definition keeps everything. -/
theorem requestDefinition_keeps {body : Node} (hb : Persists env Unit (generateBody generate sp body span))
    (params : List Ty) (ret : Ty) (s : GenState) :
    Leads env s (requestDefinition generate sp body params ret span)
      (fun _ s' => s.unit.Keeps s'.unit (fun _ => False) ∧ s'.frame = s.frame)
      fun _ s' => s.unit.Keeps s'.unit fun _ => False := by
  refine requestDefinition_leads (fun _ _ => ⟨⟨.refl _ _ _, id⟩, rfl⟩) fun hnone => ?_
  exact (hb _).mono (fun _ _ h => ⟨keeps_of_started hnone h.1, rfl⟩) fun _ _ => keeps_of_started hnone

/-- A request for a specialization keeps everything. -/
theorem specialize_keeps (hb : ∀ decl body, env.program.function? sp.func = some decl →
      decl.body = some body → Persists env Unit (generateBody generate sp body span))
    (s : GenState) : Leads env s (specialize generate sp span)
      (fun _ s' => s.unit.Keeps s'.unit (fun _ => False) ∧ s'.frame = s.frame)
      fun _ s' => s.unit.Keeps s'.unit fun _ => False := by
  refine specialize_cases (fun _ _ _ => .refl _ _)
    (fun _ _ _ _ _ _ _ => declareExternal_keeps _ _ _ _ _ _ _) ?_
  exact fun decl body params ret hdecl hbody _ _ =>
    requestDefinition_keeps (hb decl body hdecl hbody) params ret s

theorem pervasive : Pervasive env (fun _ => True) (fun _ => True) (Persists env) where
  aside := aside
  bind := fun hm hf => .bind hm fun a ⟨s, s', ha⟩ => hf a ⟨s, s', trivial, ha⟩
  emit := fun _ => .bind requireOpen fun _ _ => step fun _ => ⟨_, _, rfl⟩
  emitSlot := fun _ => step fun _ => ⟨_, _, rfl⟩
  declare := fun name params ret attrs variadic span _ =>
    (declareExternal_keeps name params ret attrs variadic span _).mono
      (fun _ _ h => ⟨h.1, congrArg Frame.function h.2⟩) fun _ _ h => h
  terminate := fun _ => .bind requireOpen fun _ _ => step fun _ => ⟨_, _, rfl⟩
  appendBlock := fun _ => step fun _ => ⟨_, _, rfl⟩
  modifyFrame := fun _ hg s => .of_ok rfl ⟨.refl _ _, (hg s.frame).1⟩
  specialize := fun _ _ _ hb s =>
    (specialize_keeps hb s).mono (fun _ _ h => ⟨h.1.weaken, congrArg Frame.function h.2⟩)
      fun _ _ h => h.weaken

end Persists

end Gen

/-! ## Entry points -/

namespace Compiler

open Gen

variable {env : Env} {func : FuncId} {s : GenState}

/-- The specialization of an entry point: not generic, with a body, at all its parameters. -/
structure Enters (p : Program) (func : FuncId) (decl : FunctionDecl) (sp : Specialization) :
    Prop where
  function : p.function? func = some decl
  notGeneric : decl.isGeneric = false
  hasBody : decl.body.isSome = true
  resolve : Specialization.resolve p func decl [] (decl.params.filter fun q => !q.variadic).length
    decl.span = .ok sp

theorem Enters.requested {decl : FunctionDecl} {sp : Specialization}
    (h : Enters env.program func decl sp) {I : GenState → Prop} (hs : I s) :
    sp.Requested env I ⟨func, []⟩ :=
  ⟨s, decl, _, _, hs, h.function, Specialization.resolve_ok h.resolve⟩

/-- An entry point, with its nodes generated up to a depth that depends on the program. -/
def entryWithin (bound : Program → Nat) (func : FuncId) : Gen FunctionId := do
  let decl ← Gen.functionDecl func
  if decl.isGeneric then Gen.internal ("entry point `" ++ decl.name ++ "` is generic") decl.span
  else if decl.body.isNone then
    Gen.internal ("entry point `" ++ decl.name ++ "` has no body") decl.span
  else
    let p ← Gen.program
    let argCount := (decl.params.filter fun q => !q.variadic).length
    let s ← Gen.ofExcept (Specialization.resolve p func decl [] argCount decl.span)
    let id ← Gen.specialize (Gen.generate (bound p)) s decl.span
    Gen.modifyUnit fun u => { u with module := u.module.addExport decl.name id }
    return id

theorem entry_eq_entryWithin (func : FuncId) : entry func = entryWithin Program.depthBound func := rfl

/-- What the bound comes to in a run. -/
theorem entryWithin_run (bound : Program → Nat) (env : Env) (s : GenState) (func : FuncId) :
    entryWithin bound func env s = entryWithin (fun _ => bound env.program) func env s := by
  have hbind {β : Type} {f f' : FunctionDecl → Gen β} (h : ∀ d s, f d env s = f' d env s) :
      (functionDecl func >>= f) env s = (functionDecl func >>= f') env s := by
    rw [run_bind, run_bind]
    cases functionDecl func env s with
    | error e t => rfl
    | ok d t => exact h d t
  unfold entryWithin
  refine hbind fun d t => ?_
  by_cases hg : d.isGeneric = true
  · rw [if_pos hg, if_pos hg]
  · rw [if_neg hg, if_neg hg]
    by_cases hb : d.body.isNone = true
    · rw [if_pos hb, if_pos hb]
    · rw [if_neg hb, if_neg hb, run_bind, run_bind]
      rfl

/-- What compiling an entry point comes to: it is refused, or specialized and exported. -/
theorem entryWithin_leads {depth : Nat} {Q : FunctionId → GenState → Prop}
    {E : Failure → GenState → Prop}
    (refused : (∀ decl sp, ¬ Enters env.program func decl sp) → ∀ e, e ≠ .misplaced → E e s)
    (specialized : ∀ decl sp, Enters env.program func decl sp →
      Leads env s (specialize (Gen.generate depth) sp decl.span)
        (fun id s' => Q id { s' with unit := { s'.unit with
          module := s'.unit.module.addExport decl.name id } }) E) :
    Leads env s (entryWithin (fun _ => depth) func) Q E := by
  refine Leads.bind (Q := fun d s' => env.program.function? func = some d ∧ s = s')
    (.functionDecl (fun d h => ⟨h, rfl⟩) fun hnone => refused ?_ _ (by simp)) ?_
  · intro decl sp h
    cases hnone.symm.trans h.function
  rintro decl _ - ⟨hdecl, rfl⟩
  have only {decl' : FunctionDecl} {sp : Specialization} (h : Enters env.program func decl' sp) :
      decl' = decl := Option.some.inj (h.function.symm.trans hdecl)
  split
  · next hg =>
    refine .of_error rfl (refused (fun decl' sp h => ?_) _ (by simp))
    rw [← only h, h.notGeneric] at hg
    cases hg
  · next hg =>
    split
    · next hb =>
      refine .of_error rfl (refused (fun decl' sp h => ?_) _ (by simp))
      rw [← only h, Option.isNone_iff_eq_none] at hb
      have hsome := h.hasBody
      rw [hb] at hsome
      cases hsome
    · next hb =>
      refine .read rfl ?_
      refine Leads.bind (Q := fun sp s' => Enters env.program func decl sp ∧ s = s')
        (.ofExcept (fun sp h => ⟨?_, rfl⟩) fun e he => refused ?_ _ (by simp)) ?_
      · exact ⟨hdecl, by simpa using hg, Option.ne_none_iff_isSome.mp (by simpa using hb), h⟩
      · intro decl' sp h
        have hres := h.resolve
        rw [only h, he] at hres
        cases hres
      · rintro sp _ - ⟨hsp, rfl⟩
        exact Leads.bind (specialized decl sp hsp) fun id s' _ h => .of_ok rfl h

theorem entry_leads {Q : FunctionId → GenState → Prop} {E : Failure → GenState → Prop}
    (refused : (∀ decl sp, ¬ Enters env.program func decl sp) → ∀ e, e ≠ .misplaced → E e s)
    (specialized : ∀ decl sp, Enters env.program func decl sp →
      Leads env s (specialize (Gen.generate env.program.depthBound) sp decl.span)
        (fun id s' => Q id { s' with unit := { s'.unit with
          module := s'.unit.module.addExport decl.name id } }) E) :
    Leads env s (entry func) Q E := by
  unfold Leads
  rw [entry_eq_entryWithin, entryWithin_run]
  exact entryWithin_leads refused specialized

end Compiler

end TypedLowering
