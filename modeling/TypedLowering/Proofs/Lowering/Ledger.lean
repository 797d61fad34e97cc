import TypedLowering.Proofs.Lowering.Books
import TypedLowering.Proofs.Lowering.Depth

/-!
The books of a unit in the course of generation. Requests for specializations are counted when they
are served, calls of definitions and exports when they are there to be seen; a request is served
before its call is generated, so between the two the count of requests is ahead. The collector flag is
raised before the call that needs it. In between the books are only orderly; the counts are balanced
and the flag is accurate at the end of every run.
-/
namespace TypedLowering
set_option autoImplicit false
open Ssa

/-! ## Worlds -/

/-- A state inside a function, with the books in order. -/
structure LedgerWorld (P : Prop) where
  state : GenState
  orderly : state.unit.Orderly
  accurate : state.unit.Accurate P
  current : ∃ f, state.unit.module.function? state.frame.function = some f ∧
    f.HasBlock state.frame.block

namespace LedgerWorld

variable {P : Prop} {w x : LedgerWorld P}

instance : CodeWorld (LedgerWorld P) where
  state := LedgerWorld.state
  le w x := x.state.frame.function = w.state.frame.function ∧
    w.state.unit.Follows x.state.unit 0
  le_refl w := ⟨rfl, .refl _⟩
  le_trans _ _ _ h h' := ⟨h'.1.trans h.1, h.2.trans h'.2⟩

/-- The function under construction has a block. -/
def HasBlock (w : LedgerWorld P) (b : BlockId) : Prop :=
  ∃ f, w.state.unit.module.function? w.state.frame.function = some f ∧ f.HasBlock b

/-- A declaration of what does not allocate. -/
def Declares (w : LedgerWorld P) (id : FunctionId) : Prop :=
  ∃ f, w.state.unit.module.function? id = some f ∧ f.isDeclaration = true ∧ ¬ f.IsAllocator

def outlook (P : Prop) : Outlook (LedgerWorld P) where
  value := Eq
  attributes := Eq
  storage _ := True
  block := HasBlock
  declared w id _ := w.Declares id
  struct _ _ _ := True
  attributes_none := rfl
  storage_of := fun _ => trivial
  block_mono := by
    rintro w x b ⟨hfn, hfollows⟩ ⟨f, hf, hb⟩
    obtain ⟨f', hf', hc⟩ := hfollows.carries.function hf
    exact ⟨f', by rwa [← hfn] at hf', hc.blocks hb⟩
  declared_mono := by
    rintro w x id _ ⟨-, hfollows⟩ ⟨f, hf, hd, ha⟩
    obtain ⟨f', hf', hc⟩ := hfollows.carries.function hf
    exact ⟨f', hf', hc.kind.trans hd, fun h => ha (hc.isAllocator.mp h)⟩
  struct_mono := fun _ => id

/-- How a run may fail. -/
def Fails (w : LedgerWorld P) (e : Failure) (s : GenState) : Prop :=
  w.state.unit.Survives P e s.unit

/-- The world of a unit that follows, at the same place. -/
theorem exists_at {u : UnitState} (ho : u.Orderly) (ha : u.Accurate P)
    (hu : w.state.unit.Follows u 0) :
    ∃ x : LedgerWorld P, CodeWorld.state x = ⟨u, w.state.frame⟩ ∧ w ≤ x := by
  obtain ⟨f, hf, hb⟩ := w.current
  obtain ⟨f', hf', hc⟩ := hu.carries.function hf
  exact ⟨⟨⟨u, w.state.frame⟩, ho, ha, f', hf', hc.blocks hb⟩, rfl, rfl, hu⟩

/-- The world at another place in the function. -/
theorem exists_with {fr : Frame} (hf : fr.function = w.state.frame.function)
    (hb : w.HasBlock fr.block) :
    ∃ x : LedgerWorld P, CodeWorld.state x = ⟨w.state.unit, fr⟩ ∧ w ≤ x := by
  refine ⟨⟨⟨w.state.unit, fr⟩, w.orderly, w.accurate, ?_⟩, rfl, hf, .refl _⟩
  rw [hf]
  exact hb

/-- An instruction that calls a function, in a unit that is ahead by that call. -/
theorem call_leads {env : Env} {u : UnitState} {callee : FunctionId} {k : Function}
    (ho : u.Orderly) (hu : w.state.unit.Follows u ([callee].countP u.module.isDefinition))
    (hk : u.module.function? callee = some k) {flag : Bool} (hflag : u.gcRequired = true → flag = true)
    (ha : (flag = u.gcRequired ∧ u.Accurate P ∧ (P → ¬ k.IsAllocator)) ∨
      (flag = true ∧ k.IsAllocator)) (t : Ty) (args : List ValueId) (attrs : Attributes) :
    Gen.Leads env ⟨{ u with gcRequired := flag }, w.state.frame⟩
      (Gen.emit (.call callee t args attrs))
      (fun _ s => ∃ x : LedgerWorld P, CodeWorld.state x = s ∧ w ≤ x) w.Fails := by
  obtain ⟨f₀, hf₀, hb₀⟩ := w.current
  obtain ⟨f, hf, hcarries⟩ := hu.carries.function hf₀
  have hc := UnitState.Calling.of_call ho hf (hcarries.blocks hb₀) hk args attrs t
  refine .emit ?_ ?_
  · refine exists_at (ho.calling hc flag) ?_ (hu.calling ho hc hflag)
    rcases ha with ⟨rfl, hacc, hn⟩ | ⟨rfl, hall⟩
    · refine hacc.calling ho hc fun c hmem k' hk' hp => ?_
      rw [List.mem_singleton] at hmem
      subst hmem
      cases hk.symm.trans hk'
      exact hn hp
    · exact .allocating (u := u) ho hc ⟨callee, List.mem_singleton_self _, k, hk, hall⟩
  · have ho' : UnitState.Orderly { u with gcRequired := flag } :=
      ⟨ho.tidy, ho.table, ho.generated⟩
    exact ⟨ho', fun hr => hflag (hu.raised hr), fun hne => (hne rfl).elim⟩

end LedgerWorld

/-! ## Runs -/

namespace Gen

variable {P : Prop} {env : Env} {s : GenState}

/-- A unit with a declaration under a name, in which the books are in order. -/
structure Declared (P : Prop) (s : GenState) (name : String) (id : FunctionId) (s' : GenState) :
    Prop where
  frame : s'.frame = s.frame
  orderly : s'.unit.Orderly
  accurate : s'.unit.Accurate P
  follows : s.unit.Follows s'.unit 0
  function : ∃ f, s'.unit.module.function? id = some f ∧ f.isDeclaration = true ∧ f.name = name

theorem declareExternal_books (ho : s.unit.Orderly) (ha : s.unit.Accurate P) (name : String)
    (params : List Ty) (ret : Ty) (attrs : Attributes) (variadic : Bool) (span : Span) :
    Leads env s (declareExternal name params ret attrs variadic span) (Declared P s name)
      fun e s' => s.unit.Survives P e s'.unit := by
  refine .read rfl ?_
  rcases ho.tidy.declare_cases name params ret attrs variadic with
    ⟨f, hd, hl, hkind, hname⟩ | ⟨i, f, hd, hf, hkind, hname⟩ | ⟨c, hd⟩
  · rw [hd]
    exact .of_ok rfl ⟨rfl, ho.declare hl hkind, ha.declare ho hl, .declare ho hl, f,
      s.unit.module.function?_addFunction_next f, hkind, hname⟩
  · rw [hd]
    exact .of_ok rfl ⟨rfl, ho, ha, .refl _, f, hf, hkind, hname⟩
  · rw [hd]
    exact .of_error rfl ⟨ho, id, fun _ => ha⟩

/-- A unit in which a request has been answered, by what does not allocate. -/
structure Answered (P : Prop) (env : Env) (sp : Specialization) (s : GenState) (id : FunctionId)
    (s' : GenState) : Prop where
  frame : s'.frame = s.frame
  orderly : s'.unit.Orderly
  accurate : s'.unit.Accurate P
  follows : s.unit.Follows s'.unit ([id].countP s'.unit.module.isDefinition)
  function : ∃ f, s'.unit.module.function? id = some f ∧
    (P → ¬ f.IsAllocator) ∧
    ∃ decl, env.program.function? sp.func = some decl ∧ f.isDeclaration = decl.body.isNone

variable {generate : Generate} {sp : Specialization} {span : Span}

/-- Requests that are answered are served: what is called for them is still to come. -/
theorem specialize_books (hP : P → env.program.SparesCollector) (ho : s.unit.Orderly) (ha : s.unit.Accurate P)
    (hname : ∀ decl, env.program.function? sp.func = some decl → sp.name = decl.name)
    (hbody : ∀ decl body, env.program.function? sp.func = some decl → decl.body = some body →
      ∀ w : LedgerWorld P,
        Tracks env LedgerWorld.Fails Unit w (fun _ => Eq) (generateBody generate sp body span)
          (generateBody generate sp body span)) :
    Leads env s (specialize generate sp span) (Answered P env sp s)
      fun e s' => s.unit.Survives P e s'.unit := by
  refine specialize_leads (fun _ _ _ => ⟨ho, id, fun _ => ha⟩) ?_ ?_ ?_
  · intro decl params ret hdecl hnone _ _
    refine (declareExternal_books ho ha _ _ _ _ _ _).mono ?_ fun _ _ h => h
    rintro id s' ⟨hframe, ho', ha', hf, f, hid, hkind, hfname⟩
    refine ⟨hframe, ho', ha', ?_, f, hid, fun hp => ?_, decl, hdecl, by rw [hkind, hnone]; rfl⟩
    · rwa [List.countP_singleton, Module.isDefinition_eq hid, hkind]
    · rintro ⟨support, hall, hsym⟩
      refine hP hp decl (Array.mem_of_getElem? hdecl) hnone support hall ?_
      rw [← hname decl hdecl, ← hfname, hsym]
  · intro decl body params i hdecl hb _ hget
    obtain ⟨f, hf, hkind, hfname⟩ := ho.table.mp hget
    refine ⟨rfl, ⟨ho.tidy, ho.table, ho.generated⟩, ha, ⟨.refl _, ?_, id⟩, f, hf, fun _ => ?_,
      decl, hdecl, by rw [hkind, hb]; rfl⟩
    · show s.unit.generated + (s.unit.cacheHits + 1) + s.unit.uses = s.unit.served + s.unit.uses + _
      rw [List.countP_singleton]
      show _ = _ + if s.unit.module.isDefinition i = true then 1 else 0
      rw [Module.isDefinition_eq hf, hkind, UnitState.served]
      simp only [Bool.not_false, if_true]
      omega
    · refine Function.not_isAllocator ?_
      rw [hfname]
      exact sp.namesAllocator_symbol env.program
  · intro decl body params ret hdecl hb _ _ hnone
    let f : Function := (Function.shell (sp.symbol env.program) params ret .internal).addBlock "entry"
    have hf := s.unit.module.function?_addFunction_next f
    have hfollows := UnitState.Follows.started ho sp (sp.symbol env.program) params ret
    let w : LedgerWorld P := {
      state := s.started sp (sp.symbol env.program) params ret
      orderly := ho.started sp params ret hnone
      accurate := ha.started ho sp _ params ret
      current := ⟨f, hf, (Function.hasBlock_addBlock "entry").mpr (.inr rfl)⟩ }
    refine (hbody decl body hdecl hb w).mono ?_ fun e s' he => hfollows.survives he
    rintro _ s' ⟨x, rfl, hx, -⟩
    obtain ⟨k, hk, hc⟩ := hx.2.carries.function hf
    refine ⟨rfl, x.orderly, x.accurate, ?_, k, hk, fun _ => ?_, decl, hdecl,
      by rw [hc.kind, hb]; rfl⟩
    · show s.unit.Follows x.state.unit ([_].countP x.state.unit.module.isDefinition)
      rw [List.countP_singleton, Module.isDefinition_eq hk, hc.kind]
      exact hfollows.trans hx.2
    · refine Function.not_isAllocator ?_
      rw [hc.name]
      exact sp.namesAllocator_symbol env.program

/-- Every step keeps the books. -/
theorem ledger_trackable (env : Env) :
    Trackable (LedgerWorld.outlook P) env (LedgerWorld.Fails (P := P)) where
  value := fun _ => rfl
  attributes := fun _ => rfl
  storage := fun _ => trivial
  later := fun hx he => hx.2.survives he
  struct := fun _ _ => trivial
  misplaced := fun w => ⟨w.orderly, id, fun _ => w.accurate⟩
  refused := fun {w e s} hq _ _ =>
    ⟨w.orderly.of_alike hq.toAlike, fun hr => hq.collector.trans hr, fun _ => w.accurate.of_quiet hq⟩
  quiet := fun {w s} hq => by
    obtain ⟨x, hx, hwx⟩ := LedgerWorld.exists_at (w := w) (w.orderly.of_alike hq.toAlike)
      (w.accurate.of_quiet hq) (.of_quiet hq)
    have hs : s = ⟨s.unit, w.state.frame⟩ := congrArg (GenState.mk s.unit) hq.toAlike.frame
    exact ⟨x, hx.trans hs.symm, hwx⟩
  edit := fun {w g} hg => by
    obtain ⟨f, hf, hb⟩ := w.current
    have hc := UnitState.Calling.of_edit w.orderly hf hb hg
    exact LedgerWorld.exists_at (w.orderly.calling hc _)
      (w.accurate.calling w.orderly hc fun _ hmem => by cases hmem)
      (UnitState.Follows.calling (.refl _) w.orderly hc id)
  opened := fun {w _ _} hx _ => by
    obtain ⟨f, hf, -⟩ := w.current
    exact GenState.hasBlock_mapFunction_addBlock hf hx
  moved := fun hb => LedgerWorld.exists_with rfl hb
  modifyFrame := fun {w g} hg => by
    obtain ⟨hfn, hblock, -⟩ := hg (CodeWorld.state w).frame
    exact LedgerWorld.exists_with hfn (by rw [hblock]; exact w.current)
  callSupport := fun {w} f args span => by
    refine (declareExternal_books w.orderly w.accurate _ _ _ _ _ _).bind ?_
    rintro callee s - ⟨hframe, ho, ha, hfollows, k, hk, hkind, hname⟩
    have hahead : w.state.unit.Follows s.unit ([callee].countP s.unit.module.isDefinition) := by
      rwa [List.countP_singleton, Module.isDefinition_eq hk, hkind]
    obtain ⟨u, fr⟩ := s
    cases hframe
    have done {a : ValueId} {s' : GenState}
        (h : ∃ x : LedgerWorld P, CodeWorld.state x = s' ∧ w ≤ x) :
        ∃ x : LedgerWorld P, CodeWorld.state x = s' ∧ w ≤ x ∧ ∃ a', a = a' := by
      obtain ⟨x, hx, hwx⟩ := h
      exact ⟨x, hx, hwx, a, rfl⟩
    have hcalls := SupportFunction.namesAllocator_symbol f
    cases hall : f.allocates with
    | true =>
      refine Leads.bind (Q := fun _ s' => s' = ⟨{ u with gcRequired := true }, w.state.frame⟩)
        (.of_ok rfl rfl) ?_
      rintro _ _ - rfl
      exact (LedgerWorld.call_leads ho hahead hk (fun _ => rfl) (.inr ⟨rfl, f, hall, hname⟩) _ _
        _).mono (fun _ _ => done) fun _ _ h => h
    | false =>
      have hn : ¬ k.IsAllocator := Function.not_isAllocator (by rw [hname, hcalls, hall])
      exact (LedgerWorld.call_leads ho hahead hk id (.inl ⟨rfl, ha, fun _ => hn⟩) _ _ _).mono
        (fun _ _ => done) fun _ _ h => h
  declareMath := fun {w symbol} arity attrs span hsym => by
    refine (declareExternal_books w.orderly w.accurate _ _ _ _ _ _).mono ?_ fun _ _ h => h
    rintro id s ⟨hframe, ho, ha, hfollows, k, hk, hkind, hname⟩
    obtain ⟨x, hx, hwx⟩ := LedgerWorld.exists_at ho ha hfollows
    have hs : CodeWorld.state x = s := hx.trans (congrArg (GenState.mk s.unit) hframe).symm
    have hn : ¬ k.IsAllocator := Function.not_isAllocator (by
      rw [hname, SupportFunction.namesAllocator_math symbol hsym])
    refine ⟨x, hs, hwx, id, k, ?_, hkind, hn⟩
    show (CodeWorld.state x).unit.module.function? id = some k
    rw [hs]
    exact hk
  callFunction := fun {w i j} args attrs hi => by
    obtain ⟨k, hk, hkind, hn⟩ := hi
    refine .read rfl ((LedgerWorld.call_leads w.orderly ?_ hk id (.inl ⟨rfl, w.accurate, fun _ => hn⟩)
      _ args attrs).mono ?_ fun _ _ h => h)
    · rw [List.countP_singleton, Module.isDefinition_eq hk, hkind]
      exact .refl _
    · rintro a s ⟨x, hx, hwx⟩
      exact ⟨x, hx, hwx, a, rfl⟩

/-- A specialization and the call that it is requested for. -/
theorem request_tracks (hP : P → env.program.SparesCollector)
    (hname : ∀ decl, env.program.function? sp.func = some decl →
      sp.name = decl.name)
    (hbody : ∀ decl body, env.program.function? sp.func = some decl → decl.body = some body →
      ∀ w : LedgerWorld P,
        Tracks env LedgerWorld.Fails Unit w (fun _ => Eq) (generateBody generate sp body span)
          (generateBody generate sp body span))
    (w : LedgerWorld P) (args : List ValueId) :
    Tracks env LedgerWorld.Fails ValueId w (fun _ => Eq)
      (do callFunction (← specialize generate sp span) args .none)
      (do callFunction (← specialize generate sp span) args .none) := by
  refine (specialize_books hP w.orderly w.accurate hname hbody).bind ?_
  rintro callee s - ⟨hframe, ho, ha, hfollows, k, hk, hn, -⟩
  obtain ⟨u, fr⟩ := s
  cases hframe
  refine .read rfl ((LedgerWorld.call_leads ho hfollows hk (fun h => h) (.inl ⟨rfl, ha, hn⟩) _ args
    .none).mono ?_ fun _ _ h => h)
  rintro a s ⟨x, hx, hwx⟩
  exact ⟨x, hx, hwx, a, rfl⟩

/-- Whatever is generated, the books are in order afterwards. -/
theorem ledger_nodes (hP : P → env.program.SparesCollector) (depth : Nat) (n : Node) :
    Coupling.Couples (LedgerWorld.outlook P) (fun t => t) (Gen.generate depth)
      (Gen.generate depth) (Tracks env LedgerWorld.Fails) n := by
  refine (ledger_trackable env).nodes (fun w => ⟨w.orderly, id, fun _ => w.accurate⟩) ?_ depth n
  intro depth hn w signature s decl typeArgs argCount span args _ _ hdecl hres
  have hres := Specialization.resolve_ok hres
  have hfunc : env.program.function? s.func = some decl := by rw [hres.func_eq, hdecl]
  refine request_tracks hP (fun decl' hdecl' => ?_) (fun _ body _ _ w' => ?_) w args
  · cases hfunc.symm.trans hdecl'
    exact hres.name_eq
  · exact (ledger_trackable env).body (hn body) (fun _ _ d _ => hn d) span

end Gen

/-! ## Exports -/

namespace UnitState

variable {u : UnitState} {id : FunctionId} {f : Function}

/-- The unit with a definition exported. -/
def exporting (u : UnitState) (name : String) (id : FunctionId) : UnitState :=
  { u with module := u.module.addExport name id }

/-- To make a definition visible is no call. -/
theorem Calling.of_export (h : u.Orderly) (hf : u.module.function? id = some f)
    (hdef : f.isDeclaration = false) :
    Calling u.module id f (fun f => { f with linkage := .exported }) [] where
  function := hf
  carries := ⟨rfl, hdef.symm, fun hb => hb⟩
  tidy := fun v hv => h.tidy.bodies hf v hv
  callees := by
    rw [Function.callees_of_listed_eq (f := f) (g := { f with linkage := .exported }) rfl rfl]
    rfl
  known := fun _ hmem => by cases hmem

theorem Orderly.exporting (h : u.Orderly) (name : String) (hf : u.module.function? id = some f)
    (hdef : f.isDeclaration = false) : (u.exporting name id).Orderly := by
  have hcalling := h.calling (Calling.of_export h hf hdef) u.gcRequired
  have hexported : (GenState.mk (u.exporting name id) .outside).unit.Orderly :=
    Orderly.of_alike (s := ⟨_, .outside⟩) hcalling ⟨rfl, rfl, rfl, rfl, rfl, rfl, rfl⟩
  exact hexported

end UnitState

/-! ## Compilers -/

namespace Compiler

variable {P : Prop} {c : Compiler}

theorem orderly_new (p : Program) (config : Config) (registry : Registry) :
    (new p config registry).unit.Orderly where
  tidy := ⟨(fun hf => by cases hf), (fun hc => by cases hc), fun hn => by cases hn⟩
  table := by
    intro symbol id
    constructor
    · intro h
      cases h
    · rintro ⟨f, hf, -⟩
      cases hf
  generated := rfl

theorem accurate_new (p : Program) (config : Config) (registry : Registry) :
    (new p config registry).unit.Accurate P := by
  refine fun _ => iff_of_false (fun h => by cases h) ?_
  rintro ⟨c, hc, -⟩
  cases hc

/-- A compiled entry point is a request that has been exported. -/
theorem entryWithin_books (hP : P → c.env.program.SparesCollector) (ho : c.unit.Orderly)
    (ha : c.unit.Accurate P) (depth : Nat) (func : FuncId) :
    Gen.Leads c.env c.start (entryWithin (fun _ => depth) func)
      (fun _ s => s.unit.Orderly ∧ s.unit.Accurate P ∧ c.unit.Follows s.unit 0)
      fun e s => c.unit.Survives P e s.unit := by
  refine entryWithin_leads (fun _ _ _ => ⟨ho, id, fun _ => ha⟩) fun decl sp hsp => ?_
  have hres := Specialization.resolve_ok hsp.resolve
  have hfunc : c.env.program.function? sp.func = some decl := by rw [hres.func_eq, hsp.function]
  refine (Gen.specialize_books hP ho ha ?_ ?_).mono ?_ fun _ _ h => h
  · intro decl' hdecl'
    cases hfunc.symm.trans hdecl'
    exact hres.name_eq
  · intro _ body _ _ w
    exact (Gen.ledger_trackable c.env).body (Gen.ledger_nodes hP _ body)
      (fun _ _ d _ => Gen.ledger_nodes hP _ d) decl.span
  · rintro i s ⟨-, ho', ha', hfollows, f, hf, -, decl', hdecl', hkind⟩
    cases hfunc.symm.trans hdecl'
    have hdef : f.isDeclaration = false := by
      rw [hkind, Option.isNone_eq_false_iff]
      exact hsp.hasBody
    have hc := UnitState.Calling.of_export ho' hf hdef
    rw [List.countP_singleton, Module.isDefinition_eq hf, hdef] at hfollows
    refine ⟨ho'.exporting decl.name hf hdef, ?_, ?_⟩
    · exact ha'.calling ho' hc fun _ hmem => by cases hmem
    · have hm := hfollows.carries.trans
        (.modifyFunction (g := fun f => { f with linkage := .exported }) hf hc.carries)
      refine ⟨⟨hm.function⟩, ?_, hfollows.raised⟩
      have hb : s.unit.served + c.unit.uses = c.unit.served +
          (s.unit.module.definitionCalls + s.unit.module.exports.size) + 1 := hfollows.balance
      have hcalls := hc.definitionCalls ho'
      show s.unit.served + c.unit.uses = c.unit.served +
        ((s.unit.module.modifyFunction i fun f => { f with linkage := .exported }).definitionCalls +
          (s.unit.module.exports.push (decl.name, i)).size) + 0
      rw [hcalls, Array.size_push, List.countP_nil]
      omega

theorem compileEntryAt_books (hP : P → c.env.program.SparesCollector) (ho : c.unit.Orderly)
    (ha : c.unit.Accurate P) (depth : Nat) (func : FuncId) :
    (c.compileEntryAt depth func).2.unit.Orderly ∧
      (c.unit.gcRequired = true → (c.compileEntryAt depth func).2.unit.gcRequired = true) ∧
      ((c.compileEntryAt depth func).1 ≠ .error .misplaced →
        (c.compileEntryAt depth func).2.unit.Accurate P) ∧
      ∀ id, (c.compileEntryAt depth func).1 = .ok id →
        c.unit.Follows (c.compileEntryAt depth func).2.unit 0 := by
  rcases compileEntryAt_leads (entryWithin_books hP ho ha depth func) with
    ⟨id, s, hrun, ho', ha', hfollows⟩ | ⟨e, s, hrun, hsurvives⟩
  · rw [hrun]
    exact ⟨ho', hfollows.raised, fun _ => ha', fun _ _ => hfollows⟩
  · rw [hrun]
    refine ⟨hsurvives.orderly, hsurvives.raised, fun hne => hsurvives.accurate fun h => ?_,
      fun _ h => by cases h⟩
    exact hne (by rw [h])

theorem compileEntry_books (hP : P → c.env.program.SparesCollector) (ho : c.unit.Orderly)
    (ha : c.unit.Accurate P) (func : FuncId) :
    (c.compileEntry func).2.unit.Orderly ∧
      (c.unit.gcRequired = true → (c.compileEntry func).2.unit.gcRequired = true) ∧
      ((c.compileEntry func).1 ≠ .error .misplaced → (c.compileEntry func).2.unit.Accurate P) ∧
      ∀ id, (c.compileEntry func).1 = .ok id → c.unit.Follows (c.compileEntry func).2.unit 0 := by
  rw [compileEntry_eq]
  exact compileEntryAt_books hP ho ha _ func

/-- The table, the definitions and their count agree after any calls. -/
theorem after_orderly (h : c.unit.Orderly) (calls : List FuncId) :
    (c.after calls).unit.Orderly := by
  induction calls generalizing c with
  | nil => exact h
  | cons func rest ih => exact ih (compileEntry_books (P := False) False.elim h False.elim func).1

theorem after_raised (h : c.unit.Orderly) (calls : List FuncId) (hr : c.unit.gcRequired = true) :
    (c.after calls).unit.gcRequired = true := by
  induction calls generalizing c with
  | nil => exact hr
  | cons func rest ih =>
    have hbooks := compileEntry_books (P := False) False.elim h False.elim func
    exact ih hbooks.1 (hbooks.2.1 hr)

/-- The flag is accurate after calls of which none broke off. -/
theorem after_accurate (ho : c.unit.Orderly)
    (ha : c.unit.Accurate c.env.program.SparesCollector) (calls : List FuncId)
    (hcalls : ∀ earlier func later, calls = earlier ++ func :: later →
      ((c.after earlier).compileEntry func).1 ≠ .error .misplaced) :
    (c.after calls).unit.Accurate c.env.program.SparesCollector := by
  induction calls using List.reverseRecOn with
  | nil => exact ha
  | append_singleton calls func ih =>
    have hold := ih fun earlier func' later heq => hcalls earlier func' (later ++ [func]) (by simp [heq])
    have henv := c.after_env calls
    have hbooks := compileEntry_books (c := c.after calls) (P := c.env.program.SparesCollector)
      (fun h => by rwa [after_env]) (after_orderly ho calls) hold func
    rw [after_snoc]
    exact hbooks.2.2.1 (hcalls calls func [] rfl)

/-- Every request of compiled entry points is used once. -/
theorem compileAllAt_follows {c' : Compiler} (ho : c.unit.Orderly) {depth : Nat} {funcs : List FuncId}
    (h : c.compileAllAt depth funcs = .ok c') : c'.unit.Orderly ∧ c.unit.Follows c'.unit 0 := by
  refine compileAllAt_induction (P := fun _ c₁ => c₁.unit.Orderly ∧ c.unit.Follows c₁.unit 0)
    (fun h _ _ => h) ?_ [] ⟨ho, .refl _⟩ h
  rintro c₁ c₂ _ func _ id ⟨ho₁, hfollows⟩ - - hok
  have hbooks := compileEntryAt_books (P := False) False.elim ho₁ False.elim depth func
  rw [hok] at hbooks
  exact ⟨hbooks.1, hfollows.trans (hbooks.2.2.2 id rfl)⟩

theorem compileAll_follows {c' : Compiler} (ho : c.unit.Orderly) {funcs : List FuncId}
    (h : c.compileAll funcs = .ok c') : c'.unit.Orderly ∧ c.unit.Follows c'.unit 0 :=
  compileAllAt_follows ho ((compileAll_eq _ _).symm.trans h)

end Compiler

/-! ## Results -/

/-- The definitions of a unit have distinct names, which are the keys of the table, and each has been
generated once. -/
theorem UnitState.Orderly.accounts {u : UnitState} (h : u.Orderly) :
    (u.module.definitions.map fun d => d.2.name).Nodup ∧
      (∀ symbol id, u.specializations.get? symbol = some id ↔
        ∃ f, (id, f) ∈ u.module.definitions ∧ f.name = symbol) ∧
      u.generated = u.module.definitions.length := by
  have htable (symbol : String) (id : FunctionId) : u.specializations.get? symbol = some id ↔
      ∃ f, (id, f) ∈ u.module.definitions ∧ f.name = symbol := by
    rw [h.table]
    simp only [Module.mem_definitions, and_assoc]
  refine ⟨?_, htable, h.generated⟩
  refine List.Nodup.map_on ?_ u.module.nodup_definitions
  rintro ⟨i, f⟩ hf ⟨j, g⟩ hg hname
  have hi := (htable f.name i).mpr ⟨f, hf, rfl⟩
  have hj := (htable f.name j).mpr ⟨g, hg, hname.symm⟩
  cases hi.symm.trans hj
  cases (Module.mem_definitions.mp hf).1.symm.trans (Module.mem_definitions.mp hg).1
  rfl

/-- A specialization is generated at most once, and every request is accounted for. After any calls on
one compiler, whether they succeed or fail, the definitions of the module have distinct names, the
table leads from exactly these to them, and as many specializations have been generated. When a
program is compiled, the specializations generated and the requests answered from the table are
together as many as the calls of definitions and the exports. -/
theorem generated_once (p : Program) (config : Config) :
    (∀ (registry : Registry) (calls : List FuncId),
      let u := ((Compiler.new p config registry).after calls).unit
      (u.module.definitions.map fun d => d.2.name).Nodup ∧
        (∀ symbol id, u.specializations.get? symbol = some id ↔
          ∃ f, (id, f) ∈ u.module.definitions ∧ f.name = symbol) ∧
        u.generated = u.module.definitions.length) ∧
    ∀ out, compile p config = .ok out →
      out.generated + out.cacheHits =
        ((out.module.functions.toList.flatMap Function.calls).countP fun call =>
          out.module.isDefinition call.1) + out.module.exports.size := by
  constructor
  · intro registry calls
    exact (Compiler.after_orderly (Compiler.orderly_new p config registry) calls).accounts
  · intro out hout
    obtain ⟨c, hc, hout⟩ := except_bind_ok hout
    cases hout
    have hbalance :=
      (Compiler.compileAll_follows (Compiler.orderly_new p config .standard) hc).2.balance
    have hcalls : (c.unit.module.functions.toList.flatMap Function.calls).countP
        (fun call => c.unit.module.isDefinition call.1) = c.unit.module.definitionCalls := by
      unfold Module.definitionCalls Module.callees Function.callees
      rw [← List.map_flatMap, List.countP_map]
      rfl
    rw [hcalls]
    exact hbalance.trans (Nat.zero_add _)

/-- A program that requests its entry point again and boxes a number:
`function main(x: int): int | null { main(x); return x; }`. -/
def boxingProgram : Program :=
  let node (t : StaticType) (form : Form Node) : Node := .mk ⟨0⟩ .dummy t form
  let x : Node := node .int (.identifier "x")
  let again : Node := node (.nullable .int)
    (.call (node .void (.identifier "main")) [x] (some ⟨⟨0⟩, []⟩))
  { functions := #[{
      name := "main"
      params := [{ name := "x", type := .int }]
      ret := .nullable .int
      body := some (node .void
        (.block [node .void (.expressionStatement again), node .void (.ret (some x))])) }]
    entryPoints := [⟨0⟩] }

theorem compile_boxingProgram :
    ((compile boxingProgram {}).map fun out =>
      (out.generated, out.cacheHits, out.module.exports.size)).toOption = some (1, 1, 1) := by
  decide +kernel

/-- One of the two requests is for the export, the other for the one call of a definition. -/
theorem generated_once_boxing : ∃ out, compile boxingProgram {} = .ok out ∧
    out.generated + out.cacheHits = 2 ∧
    ((out.module.functions.toList.flatMap Function.calls).countP fun call =>
      out.module.isDefinition call.1) = 1 := by
  obtain ⟨out, hc, heq⟩ := except_map_ok compile_boxingProgram
  obtain ⟨hgenerated, hhits, hexports⟩ : out.generated = 1 ∧ out.cacheHits = 1 ∧
      out.module.exports.size = 1 :=
    ⟨congrArg Prod.fst heq, congrArg (·.2.1) heq, congrArg (·.2.2) heq⟩
  have hmain := (generated_once boxingProgram {}).2 out hc
  exact ⟨out, hc, by omega, by omega⟩

/-- The collector flag is accurate. If no function that is defined elsewhere has the name of a support
function that allocates, then after any calls on one compiler, whether they succeed or fail, the flag
is raised exactly if some function contains a call of a support function that allocates; and it is
never lowered. -/
theorem gcRequired_iff_callsAllocator {p : Program} (hp : p.SparesCollector) (config : Config)
    (registry : Registry) (calls : List FuncId) :
    let c := (Compiler.new p config registry).after calls
    ((∀ earlier func later, calls = earlier ++ func :: later →
        (((Compiler.new p config registry).after earlier).compileEntry func).1 ≠
          .error .misplaced) →
      (c.unit.gcRequired = true ↔ ∃ f ∈ c.unit.module.functions, ∃ call ∈ f.calls,
        ∃ support : SupportFunction, support.allocates = true ∧
          c.unit.module.functionName call.1 = support.symbol)) ∧
    ∀ later, c.unit.gcRequired = true → (c.after later).unit.gcRequired = true := by
  intro c
  have ho : c.unit.Orderly := Compiler.after_orderly (Compiler.orderly_new p config registry) calls
  refine ⟨fun hcalls => ?_, fun later => Compiler.after_raised ho later⟩
  have ha := Compiler.after_accurate (c := Compiler.new p config registry)
    (Compiler.orderly_new p config registry) (Compiler.accurate_new p config registry) calls hcalls
  refine (ha hp).trans ?_
  constructor
  · rintro ⟨callee, hmem, k, hk, support, hall, hname⟩
    obtain ⟨f, hf, hcallee⟩ := List.mem_flatMap.mp hmem
    obtain ⟨call, hcall, rfl⟩ := List.mem_map.mp hcallee
    refine ⟨f, Array.mem_toList_iff.mp hf, call, hcall, support, hall, ?_⟩
    rw [← hname, Module.functionName, show c.unit.module.functions[call.1.index]? = some k from hk]
  · rintro ⟨f, hf, call, hcall, support, hall, hname⟩
    have hmem : call.1 ∈ c.unit.module.callees :=
      List.mem_flatMap.mpr ⟨f, Array.mem_toList_iff.mpr hf, List.mem_map.mpr ⟨call, hcall, rfl⟩⟩
    obtain ⟨k, hk⟩ := ho.tidy.callees hmem
    refine ⟨call.1, hmem, k, hk, support, hall, ?_⟩
    rw [← hname, Module.functionName, show c.unit.module.functions[call.1.index]? = some k from hk]

theorem compileEntry_boxingProgram :
    ((((Compiler.new boxingProgram {} .standard).compileEntry ⟨0⟩).1.toOption,
      ((Compiler.new boxingProgram {} .standard).compileEntry ⟨0⟩).2.unit.gcRequired)) =
        (some ⟨0⟩, true) := by
  decide +kernel

/-- The box calls for the collector. -/
theorem gcRequired_iff_callsAllocator_boxing :
    let u := ((Compiler.new boxingProgram {} .standard).after [⟨0⟩]).unit
    boxingProgram.SparesCollector ∧ u.gcRequired = true ∧ ∃ f ∈ u.module.functions,
      ∃ call ∈ f.calls, ∃ support : SupportFunction, support.allocates = true ∧
        u.module.functionName call.1 = support.symbol := by
  intro u
  have hspares : boxingProgram.SparesCollector := by
    intro decl hdecl hnone
    cases List.mem_singleton.mp (Array.mem_toList_iff.mpr hdecl)
    cases hnone
  have hrun := compileEntry_boxingProgram
  have hmain := gcRequired_iff_callsAllocator hspares {} .standard [⟨0⟩]
  have hflag : u.gcRequired = true := congrArg Prod.snd hrun
  refine ⟨hspares, hflag, (hmain.1 ?_).mp hflag⟩
  intro earlier func later heq hbroken
  obtain ⟨rfl, rfl, rfl⟩ : earlier = [] ∧ func = ⟨0⟩ ∧ later = [] := by
    cases earlier with
    | nil => simpa [eq_comm] using heq
    | cons a rest => simp at heq
  have hresult := congrArg Prod.fst hrun
  rw [show ((Compiler.new boxingProgram {} .standard).after []) =
    Compiler.new boxingProgram {} .standard from rfl] at hbroken
  rw [hbroken] at hresult
  cases hresult

end TypedLowering
