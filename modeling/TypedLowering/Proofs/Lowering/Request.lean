import TypedLowering.Proofs.Lowering.Depth
import TypedLowering.Proofs.Lowering.Regular

/-!
Requests for definitions in regular units. A program asks for specializations of the functions that
it calls, at types of a kind that substitution does not lead out of; whatever the answers are, they
are regular units again, with a function of the right name in them.
-/
namespace TypedLowering
set_option autoImplicit false
open Ssa

/-! ## What a program asks for -/

/-- A call of a function with `Called` that passes types with `T` for type parameters. -/
def Signature.Within (Called : FuncId → Prop) (T : StaticType → Prop) (s : Signature) : Prop :=
  Called s.func ∧ ∀ t ∈ s.typeArgs, T t

/-- A tree with such calls only. -/
abbrev Node.CallsWithin (Called : FuncId → Prop) (T : StaticType → Prop) : Node → Prop :=
  Node.Everywhere fun n => ∀ s, n.signature? = some s → s.Within Called T

/-- A program with such calls only, where `T` is a kind of types that substitution does not lead out
of, and whose external functions are not named like definitions. -/
structure Program.CallsWithin (Called : FuncId → Prop) (T : StaticType → Prop) (p : Program) :
    Prop where
  everywhere : p.Everywhere fun n => ∀ s, n.signature? = some s → s.Within Called T
  substitute : ∀ {t : StaticType} {subst : Substitution}, T t →
    (∀ {name u}, subst.get? name = some u → T u) → T (t.substitute subst)
  spares : p.SparesSymbols

/-- A definition that can be requested, with its tree and its low-level signature. -/
structure Specialization.Requestable (Called : FuncId → Prop) (T : StaticType → Prop) (p : Program)
    (sp : Specialization) (body : Node) (params : List Ty) (ret : Ty) : Prop where
  declared : sp.Declared T p
  called : Called sp.func
  function : ∃ decl, p.function? sp.func = some decl ∧ decl.body = some body
  params : sp.loweredParams = .ok params
  ret : sp.ret.lowered .dummy = .ok ret

namespace Specialization.Requestable

variable {Called : FuncId → Prop} {T : StaticType → Prop} {p : Program} {sp : Specialization}
  {body body' : Node} {params params' : List Ty} {ret ret' : Ty}

theorem unique (h : sp.Requestable Called T p body params ret)
    (h' : sp.Requestable Called T p body' params' ret') :
    body' = body ∧ params' = params ∧ ret' = ret := by
  obtain ⟨decl, hdecl, hbody⟩ := h.function
  obtain ⟨decl', hdecl', hbody'⟩ := h'.function
  cases hdecl.symm.trans hdecl'
  cases hbody.symm.trans hbody'
  cases h.params.symm.trans h'.params
  cases h.ret.symm.trans h'.ret
  exact ⟨rfl, rfl, rfl⟩

theorem of_resolves {func : FuncId} {decl : FunctionDecl} {typeArgs : List StaticType} {argCount : Nat}
    {span at' : Span} (hres : sp.Resolves p func decl typeArgs argCount span) (hc : Called func)
    (ht : ∀ t ∈ typeArgs, T t) (hdecl : p.function? func = some decl) (hbody : decl.body = some body)
    (hparams : sp.loweredParams = .ok params) (hret : sp.ret.lowered at' = .ok ret) :
    sp.Requestable Called T p body params ret := by
  have hfunc := hres.func_eq
  have htypes := hres.typeArgs_eq
  subst hfunc htypes
  refine ⟨⟨⟨decl, argCount, span, hdecl, ?_, hres⟩, ht⟩, hc, ⟨decl, hdecl, hbody⟩, hparams,
    StaticType.lowered_span hret _⟩
  rw [hbody]
  rfl

theorem body_within (h : sp.Requestable Called T p body params ret) (hp : p.CallsWithin Called T) :
    body.CallsWithin Called T := by
  obtain ⟨decl, hdecl, hbody⟩ := h.function
  exact hp.everywhere.body hdecl hbody

theorem default_within (h : sp.Requestable Called T p body params ret)
    (hp : p.CallsWithin Called T) :
    ∀ q ∈ sp.params, ∀ d, q.default = some d → d.CallsWithin Called T := by
  intro q hq d hd
  obtain ⟨decl, _, _, hdecl, -, hres⟩ := h.declared.resolves
  obtain ⟨param, hparam, hdefault⟩ := hres.exists_default hq hd
  exact hp.everywhere.default hdecl hparam hdefault

end Specialization.Requestable

/-- The world in which the body of a specialization is generated. -/
def RegularWorld.entered {p : Program} {I : Condition} {s : GenState} (h : s.unit.Regular p)
    (sp : Specialization) (params : List Ty) (ret : Ty)
    (hnone : s.unit.specializations.get? (sp.symbol p) = none)
    (hI : I.holds s.unit.module.nextFunction (s.started sp (sp.symbol p) params ret).unit)
    (ht : sp.Declared I.passes p) :
    RegularWorld p I where
  state := s.started sp (sp.symbol p) params ret
  regular := h.started sp params ret hnone
  current := ⟨_, s.unit.module.function?_addFunction_next _,
    (Function.hasBlock_addBlock "entry").mpr (.inr rfl)⟩
  condition := hI
  passed := ht.subst

namespace Gen

variable {p : Program} {I : Condition} {env : Env} {s : GenState} {Called : FuncId → Prop}
  {sp : Specialization} {depth : Nat} {span : Span} {body : Node} {params : List Ty} {ret : Ty}

/-! ## Answers -/

/-- A unit in which a request has been answered by a function. -/
structure Obtains (p : Program) (s : GenState) (name : String) (id : FunctionId) (t : GenState) :
    Prop where
  frame : t.frame = s.frame
  regular : t.unit.Regular p
  precedes : s.unit.Precedes t.unit
  kept : s.unit.Keeps t.unit fun _ => False
  function : ∃ f, t.unit.module.function? id = some f ∧ f.name = name

theorem Declares.obtains {heading : String × List Ty × Ty × Bool × Bool} {id : FunctionId}
    {t : GenState} (h : Declares p s heading id t) : Obtains p s heading.1 id t where
  frame := h.frame
  regular := h.regular
  precedes := h.precedes
  kept := h.keeps _
  function := by
    obtain ⟨f, hf, hh⟩ := h.function
    exact ⟨f, hf, congrArg Prod.fst hh⟩

theorem Obtains.world {w : RegularWorld p I} {name : String} {id : FunctionId} {t : GenState}
    (h : Obtains p w.state name id t) (hI : I.holds w.state.frame.function t.unit) :
    ∃ x : RegularWorld p I, CodeWorld.state x = t ∧ w ≤ x ∧ x.HasFunction id := by
  obtain ⟨x, rfl, hwx⟩ := RegularWorld.exists_at (w := w) h.regular h.precedes hI h.frame
  obtain ⟨f, hf, -⟩ := h.function
  exact ⟨x, rfl, hwx, f, hf⟩

/-- How the body of a specialization that has been entered runs, where the condition holds again for
the function that requested it. -/
def RunsOn (env : Env) (I : Condition) (own : FunctionId) (s : GenState) (m : Gen Unit) : Prop :=
  Leads env s m
    (fun _ t => t.unit.Regular env.program ∧ s.unit.Precedes t.unit ∧ I.holds own t.unit)
    fun _ t => s.unit.Precedes t.unit

theorem generateBody_persists (depth : Nat) (sp : Specialization) (body : Node) (span : Span) :
    Persists env Unit (generateBody (Gen.generate depth) sp body span) := by
  have nodes (n : Node) : Persists env Value (Gen.generate depth n) :=
    Persists.pervasive.generateNode env.program.appliesAt_trivial depth n
      (.of_forall (fun _ _ _ _ _ => trivial) n)
  exact Persists.pervasive.generateBody (nodes body) (fun _ _ d _ => nodes d) span

/-- A request for a definition is answered, or the unit has been added to. -/
theorem requestDefinition_regular (own : FunctionId) (h : s.unit.Regular env.program)
    (hI : I.holds own s.unit)
    (hbody : s.unit.specializations.get? (sp.symbol env.program) = none →
      RunsOn env I own (s.started sp (sp.symbol env.program) params ret)
        (generateBody (Gen.generate depth) sp body span)) :
    Leads env s (requestDefinition (Gen.generate depth) sp body params ret span)
      (fun id t => Obtains env.program s (sp.symbol env.program) id t ∧ I.holds own t.unit)
      fun _ t => s.unit.Precedes t.unit := by
  have hpersists : Persists env Unit (generateBody (Gen.generate depth) sp body span) :=
    generateBody_persists depth sp body span
  have hkeeps := hpersists.requestDefinition_keeps params ret s
  have hleads : Leads env s (requestDefinition (Gen.generate depth) sp body params ret span)
      (fun id t => t.frame = s.frame ∧ t.unit.Regular env.program ∧ s.unit.Precedes t.unit ∧
        I.holds own t.unit ∧
        ∃ f, t.unit.module.function? id = some f ∧ f.name = sp.symbol env.program)
      fun _ t => s.unit.Precedes t.unit := by
    refine requestDefinition_leads (fun id hid => ?_) fun hnone => ?_
    · have hp := UnitState.Precedes.recalled s sp id
      exact ⟨rfl, ⟨⟨h.orderly.tidy, h.orderly.table, h.orderly.generated⟩, h.found, h.kind, h.header,
        h.descriptor, h.bare, h.exported⟩, hp,
        I.keep ⟨hp, ⟨.of_functions_eq rfl, fun hi => hi⟩, rfl, rfl⟩ hI, (h.definition.mp hid).2⟩
    · have hstarted := UnitState.Precedes.started s sp params ret hnone
      refine (hbody hnone).mono ?_ fun _ _ he => hstarted.trans he
      rintro _ t ⟨hr, ht, hIt⟩
      obtain ⟨f, hf, hh, -⟩ := ht.embeds.function (s.unit.module.function?_addFunction_next _)
      exact ⟨rfl, hr, hstarted.trans ht, hIt, f, hf, Function.name_of_heading hh⟩
  refine (hleads.and hkeeps).mono ?_ fun _ _ he => he.1
  rintro id t ⟨⟨hframe, hr, hp, hIt, hf⟩, hk, -⟩
  exact ⟨⟨hframe, hr, hp, hk, hf⟩, hIt⟩

/-! ## Bodies -/

/-- The nodes of a program, generated one by one. -/
def RegularNodes (env : Env) (I : Condition) (Called : FuncId → Prop) (depth : Nat) : Prop :=
  ∀ n : Node, n.CallsWithin Called I.passes →
    Coupling.Couples (RegularWorld.outlook env.program I) (fun t => t) (Gen.generate depth)
      (Gen.generate depth) (Tracks env RegularWorld.Fails) n

/-- A body whose nodes can be generated. -/
theorem RegularNodes.runsOn (hn : RegularNodes env I Called depth)
    (hp : env.program.CallsWithin Called I.passes)
    (hsp : sp.Requestable Called I.passes env.program body params ret) (w : RegularWorld env.program I)
    (span : Span) :
    RunsOn env I w.state.frame.function w.state (generateBody (Gen.generate depth) sp body span) := by
  have hb := (regular_trackable I env).body (w := w) (hn body (hsp.body_within hp))
    (fun q hq d hd => hn d (hsp.default_within hp q hq d hd)) span
  refine Leads.mono hb ?_ fun _ _ he => he
  rintro _ _ ⟨x, rfl, hx, -⟩
  exact ⟨x.regular, hx.2, hx.1 ▸ x.condition⟩

/-- Requests, each with its call. -/
theorem serves_regular (hp : env.program.CallsWithin Called I.passes)
    (hbody : ∀ (w : RegularWorld env.program I) {sp : Specialization} {body : Node}
      {params : List Ty} {ret : Ty} (span : Span),
      sp.Requestable Called I.passes env.program body params ret →
      w.state.unit.specializations.get? (sp.symbol env.program) = none →
      RunsOn env I w.state.frame.function (w.state.started sp (sp.symbol env.program) params ret)
        (generateBody (Gen.generate depth) sp body span))
    (w : RegularWorld env.program I) :
    Serves env (Signature.Within Called I.passes) I.passes (Gen.generate depth) RegularWorld.Fails
      w := by
  intro signature sp decl typeArgs argCount span args hc ha hdecl hresolve
  have hres := Specialization.resolve_ok hresolve
  have hfunc {decl' : FunctionDecl} (h : env.program.function? sp.func = some decl') : decl' = decl := by
    rw [hres.func_eq, hdecl] at h
    exact (Option.some.inj h).symm
  have hspecialize : Leads env w.state (specialize (Gen.generate depth) sp span)
      (fun id t => ∃ name, Obtains env.program w.state name id t ∧
        I.holds w.state.frame.function t.unit)
      fun _ t => w.state.unit.Precedes t.unit := by
    refine specialize_cases (fun _ _ _ => .refl _) ?_ ?_
    · intro decl' params ret hdecl' hnone _ _
      have hn : Mangling.isReserved sp.name = false := by
        rw [hres.name_eq, ← hfunc hdecl']
        exact hp.spares decl' (Array.mem_of_getElem? hdecl') hnone
      refine (declareExternal_regular w.regular hn _ _ _ _ _).mono (fun id t hd => ?_) ?_
      · exact ⟨_, hd.obtains, I.keep (hd.plain _) w.condition⟩
      · rintro _ _ rfl
        exact .refl _
    · intro decl' body params ret hdecl' hb hparams hret
      cases hfunc hdecl'
      exact (requestDefinition_regular _ w.regular w.condition
        (hbody w span (.of_resolves hres hc.1 ha hdecl hb hparams hret))).mono
          (fun _ _ h => ⟨_, h⟩) fun _ _ he => he
  refine Leads.bind hspecialize ?_
  rintro id t - ⟨name, hobtains, hI⟩
  obtain ⟨x, rfl, hwx, hid⟩ := hobtains.world hI
  refine .read rfl ((call_regular x hid _ args .none).mono ?_ fun _ _ he => hwx.2.trans he)
  rintro a _ ⟨y, rfl, hxy, ha⟩
  exact ⟨y, rfl, hwx.trans hxy, ha⟩

/-- One level up, if requests can be answered. -/
theorem RegularNodes.succ (hn : RegularNodes env I Called depth)
    (hp : env.program.CallsWithin Called I.passes)
    (hbody : ∀ (w : RegularWorld env.program I) {sp : Specialization} {body : Node}
      {params : List Ty} {ret : Ty} (span : Span),
      sp.Requestable Called I.passes env.program body params ret →
      w.state.unit.specializations.get? (sp.symbol env.program) = none →
      RunsOn env I w.state.frame.function (w.state.started sp (sp.symbol env.program) params ret)
        (generateBody (Gen.generate depth) sp body span)) :
    RegularNodes env I Called (depth + 1) := by
  intro n hcalls
  have hc : Coupling (RegularWorld.outlook env.program I) env env (fun t => t)
      (Signature.Within Called I.passes) I.passes (Gen.generate depth) (Gen.generate depth)
      (Tracks env RegularWorld.Fails) :=
    (regular_trackable I env).coupling (fun w _ hs t ht => hp.substitute (hs.2 t ht) w.passed)
      (serves_regular hp hbody)
  exact hc.generateNode hcalls.here fun c hunder => hn c (hunder.everywhere hcalls)

/-- Whatever is generated, the unit stays regular. -/
theorem regular_nodes {T : StaticType → Prop} (hp : env.program.CallsWithin Called T) :
    ∀ depth, RegularNodes env (.passing T) Called depth
  | 0, _, _ => fun w => .of_error rfl (.refl w.state.unit)
  | depth + 1, n, hn => by
    have hnodes : RegularNodes env (.passing T) Called depth := regular_nodes hp depth
    refine hnodes.succ hp (fun w sp body params ret span hsp hnone => ?_) n hn
    exact hnodes.runsOn hp hsp (.entered w.regular sp params ret hnone trivial hsp.declared) span

end Gen

/-! ## Entry points -/

namespace UnitState

variable {p : Program} {u : UnitState} {id : FunctionId} {f : Function}

theorem Precedes.exporting (u : UnitState) (name : String) (hf : u.module.function? id = some f)
    (hdef : f.isDeclaration = false) : u.Precedes (u.exporting name id) where
  embeds := {
    function := fun {id' k} hk => by
      show ∃ k', (u.module.addExport name id).function? id' = some k' ∧ _
      rw [u.module.function?_addExport, hk]
      split
      · next heq =>
        subst heq
        cases hf.symm.trans hk
        refine ⟨_, rfl, ?_, fun hb => hb⟩
        simp only [Function.heading, Prod.mk.injEq, true_and]
        rw [hdef]
        rfl
      · exact ⟨k, rfl, rfl, fun hb => hb⟩
    struct := fun hs => hs
    global := fun hg => hg }
  table := fun hi => hi
  raised := fun hr => hr
  requests := ⟨[], rfl⟩

theorem Level.exporting (u : UnitState) (name : String) (hf : u.module.function? id = some f)
    (hdef : f.isDeclaration = false) : u.Level (u.exporting name id) where
  embeds := (Precedes.exporting u name hf hdef).embeds
  functions := fun {id' k'} hk' => by
    have hk' : (u.module.addExport name id).function? id' = some k' := hk'
    rw [u.module.function?_addExport] at hk'
    cases hk : u.module.function? id' with
    | none =>
      rw [hk] at hk'
      split at hk' <;> cases hk'
    | some k =>
      obtain ⟨k'', hk'', hh, -⟩ := (Precedes.exporting u name hf hdef).embeds.function hk
      have hk'' : (u.module.addExport name id).function? id' = some k'' := hk''
      rw [u.module.function?_addExport, hk'] at hk''
      cases hk''
      exact ⟨k, rfl, hh.symm⟩
  symbols := rfl
  specializations := rfl
  requests := rfl
  collector := rfl

theorem Regular.exporting (h : u.Regular p) (name : String) (hf : u.module.function? id = some f)
    (hdef : f.isDeclaration = false) : (u.exporting name id).Regular p := by
  have hl := Level.exporting u name hf hdef
  have hm (other : FunctionId) : (u.exporting name id).module.function? other =
      if id = other then (u.module.function? other).map fun f => { f with linkage := .exported }
      else u.module.function? other := u.module.function?_addExport _ _ _
  refine h.of_level hl (h.orderly.exporting name hf hdef) h.header h.descriptor
    (fun {other k} hk hdecl => ?_) fun {other} => ?_
  · rw [hm] at hk
    split at hk
    · obtain ⟨k', -, rfl⟩ := Option.map_eq_some_iff.mp hk
      cases hdecl
    · exact h.bare hk hdecl
  · have hexports : (u.exporting name id).module.exports.toList.map Prod.snd =
        u.module.exports.toList.map Prod.snd ++ [id] := by
      show (u.module.exports.push (name, id)).toList.map Prod.snd = _
      rw [Array.toList_push, List.map_append]
      rfl
    rw [hexports, List.mem_append, List.mem_singleton, hm]
    split
    · next heq =>
      subst heq
      exact iff_of_true (.inr rfl) ⟨_, by rw [hf]; rfl, rfl⟩
    · next hne => exact (or_iff_left (Ne.symm hne)).trans h.exported

end UnitState

namespace Compiler

open Gen

variable {env : Env} {s : GenState} {func : FuncId} {depth : Nat}

/-- A compiled entry point is a definition that has been requested and exported. -/
theorem entryWithin_requests {Q : FunctionId → GenState → Prop} {E : Failure → GenState → Prop}
    (refused : (∀ decl sp, ¬ Enters env.program func decl sp) → ∀ e, e ≠ .misplaced → E e s)
    (requested : ∀ decl sp body params ret, Enters env.program func decl sp → decl.body = some body →
      sp.loweredParams = .ok params → sp.ret.lowered decl.span = .ok ret →
      Leads env s (requestDefinition (Gen.generate depth) sp body params ret decl.span)
        (fun id s' => Q id { s' with unit := s'.unit.exporting decl.name id }) E) :
    Leads env s (entryWithin (fun _ => depth) func) Q E := by
  refine entryWithin_leads refused fun decl sp hsp => ?_
  have hres := Specialization.resolve_ok hsp.resolve
  have hfunc {decl' : FunctionDecl} (h : env.program.function? sp.func = some decl') : decl = decl' := by
    rw [hres.func_eq, hsp.function] at h
    exact Option.some.inj h
  refine specialize_cases (fun hrefused => ?_) ?_ ?_
  · obtain ⟨params, ret, hparams, hret⟩ := hres.exists_lowered decl.span
    exact (hrefused ⟨params, ret, decl, hparams, hret, by rw [hres.func_eq, hsp.function]⟩).elim
  · intro decl' _ _ hdecl' hnone _ _
    cases hfunc hdecl'
    have hsome := hsp.hasBody
    rw [hnone] at hsome
    cases hsome
  · intro decl' body params ret hdecl' hbody hparams hret
    cases hfunc hdecl'
    exact requested decl sp body params ret hsp hbody hparams hret

/-- The specialization of an entry point can be requested. -/
theorem Enters.requestable {Called : FuncId → Prop} {T : StaticType → Prop} {p : Program}
    {decl : FunctionDecl} {sp : Specialization} {body : Node} {params : List Ty} {ret : Ty}
    (h : Enters p func decl sp) (hc : Called func) (hbody : decl.body = some body)
    (hparams : sp.loweredParams = .ok params) (hret : sp.ret.lowered decl.span = .ok ret) :
    sp.Requestable Called T p body params ret :=
  .of_resolves (Specialization.resolve_ok h.resolve) hc (fun _ ht => by cases ht) h.function hbody
    hparams hret

/-- An entry point that is compiled leaves a regular unit. -/
theorem entryWithin_regular {c : Compiler} {Called : FuncId → Prop} {T : StaticType → Prop}
    (hp : c.env.program.CallsWithin Called T) (h : c.unit.Regular c.env.program) (hc : Called func) :
    Leads c.env c.start (entryWithin (fun _ => depth) func)
      (fun _ s => s.unit.Regular c.env.program) fun _ _ => True := by
  refine entryWithin_requests (fun _ _ _ => trivial) fun decl sp body params ret hsp hbody hparams
    hret => ?_
  have hrequestable : sp.Requestable Called T c.env.program body params ret :=
    hsp.requestable hc hbody hparams hret
  refine (requestDefinition_regular (I := .passing T) c.start.frame.function h trivial
    fun hnone => ?_).mono ?_ fun _ _ _ => trivial
  · exact (regular_nodes hp _).runsOn hp hrequestable
      (.entered h sp params ret hnone trivial hrequestable.declared) decl.span
  · rintro id s ⟨hobtains, -⟩
    obtain ⟨f, hf, hname⟩ := hobtains.function
    exact hobtains.regular.exporting decl.name hf
      (by rw [hobtains.regular.kind hf, hname, sp.isReserved_symbol]; rfl)

/-- The unit of a compiled program is regular if the program declares no function under a reserved
name. -/
theorem compileAll_regular {c c' : Compiler} (hp : c.env.program.SparesSymbols)
    (h : c.unit.Regular c.env.program) {funcs : List FuncId} (hok : c.compileAll funcs = .ok c') :
    c'.unit.Regular c.env.program ∧ c'.env = c.env := by
  have hcalls : c.env.program.CallsWithin (fun _ => True) fun _ => True :=
    ⟨c.env.program.everywhere_of_forall fun _ _ _ => ⟨trivial, fun _ _ => trivial⟩,
      fun _ _ => trivial, hp⟩
  rw [compileAll_eq] at hok
  refine compileAllAt_induction
    (P := fun _ c₁ => c₁.unit.Regular c.env.program ∧ c₁.env = c.env) (fun h _ _ => h) ?_
    [] ⟨h, rfl⟩ hok
  rintro c₁ c₂ _ func _ id ⟨h₁, henv⟩ - - hid
  rw [← henv] at h₁ hcalls ⊢
  rcases compileEntryAt_leads (entryWithin_regular hcalls h₁ trivial) with
    ⟨_, s, heq, hs⟩ | ⟨_, _, heq, -⟩
  · cases hid.symm.trans heq
    exact ⟨hs, rfl⟩
  · cases hid.symm.trans heq

end Compiler

end TypedLowering
