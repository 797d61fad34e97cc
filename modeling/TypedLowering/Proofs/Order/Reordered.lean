import TypedLowering.Proofs.Order.Following

/-!
Entry points compiled in another order. What one compiler has compiled another one can compile in any
order, and the other way round, so their units have the same functions; and since each body on record
can be generated again in the very state in which the other compiler has generated it, they have the
same calls.
-/
namespace TypedLowering
set_option autoImplicit false
open Ssa

/-! ## Calls by name -/

namespace Ssa

/-- The names of the functions that are called, in block order. -/
def Module.calledNames (m : Module) (f : Function) : List String := f.callees.map m.functionName

theorem Op.Alike.calleeName_eq {m m' : Module} {op op' : Op} (h : op.Alike m m' op') :
    op'.callee?.map m'.functionName = op.callee?.map m.functionName := by
  cases h with
  | same hlocal =>
    cases op with
    | call callee args attrs => cases hlocal
    | _ => rfl
  | fieldPtr => rfl
  | globalAddr => rfl
  | call hi hj hname args attrs =>
    show some (m'.functionName _) = some (m.functionName _)
    rw [Module.functionName_of_function? hi, Module.functionName_of_function? hj, hname]

theorem Function.Alike.calledNames_eq {m m' : Module} {f f' : Function} (h : f.Alike m m' f') :
    m'.calledNames f' = m.calledNames f := by
  have hlisted : f'.listed = f.listed := by rw [listed, listed, h.blocks]
  unfold Module.calledNames
  rw [callees_eq, callees_eq, hlisted, List.map_filterMap, List.map_filterMap]
  refine List.filterMap_congr fun v _ => ?_
  have hd := h.definition?_rel v
  unfold calleeOf
  generalize f.definition? v = x at hd
  generalize f'.definition? v = x' at hd
  cases hd with
  | none => rfl
  | some hd => exact hd.op.calleeName_eq

end Ssa

namespace UnitState

variable {p : Program} {u u' : UnitState} {r : Nat}

/-- Functions keep their names, so the calls of a function go on having them. -/
theorem Regular.calledNames_eq (h : u.Regular p) (hu : u.Precedes u') {id : FunctionId} {f : Function}
    (hf : u.module.function? id = some f) : u'.module.calledNames f = u.module.calledNames f := by
  refine List.map_congr_left fun callee hcallee => ?_
  obtain ⟨k, hk⟩ := h.orderly.tidy.callees (Module.mem_callees.mpr ⟨id, f, hf, hcallee⟩)
  obtain ⟨k', hk', hh, -⟩ := hu.embeds.function hk
  rw [Module.functionName_of_function? hk', Module.functionName_of_function? hk,
    Function.name_of_heading hh]

/-- Calls of definitions are those of reserved names. -/
theorem Regular.definitionCalls_eq (h : u.Regular p) : u.module.definitionCalls =
    (u.module.functions.toList.flatMap u.module.calledNames).countP Mangling.isReserved := by
  have hnames : u.module.functions.toList.flatMap u.module.calledNames =
      u.module.callees.map u.module.functionName := by
    rw [Module.callees, List.map_flatMap]
    rfl
  rw [hnames, List.countP_map, Module.definitionCalls]
  refine List.countP_congr fun callee hcallee => ?_
  obtain ⟨f, hf⟩ := h.orderly.tidy.callees hcallee
  rw [Module.isDefinition_eq hf, h.kind hf, Bool.not_not, Function.comp_apply,
    Module.functionName_of_function? hf]

/-- An exported function is one whose name is an exported symbol. -/
theorem Regular.exported_iff (h : u.Regular p) {id : FunctionId} {f : Function}
    (hf : u.module.function? id = some f) :
    f.linkage = .exported ↔ f.name ∈ u.module.exportedSymbols.map Prod.snd := by
  unfold Module.exportedSymbols
  rw [List.map_map, List.mem_map]
  constructor
  · intro hlink
    obtain ⟨e, he, rfl⟩ := List.mem_map.mp (h.exported.mpr ⟨f, hf, hlink⟩)
    exact ⟨e, he, Module.functionName_of_function? hf⟩
  · rintro ⟨e, he, hname⟩
    obtain ⟨g, hg, hlink⟩ := h.exported.mp (List.mem_map_of_mem he)
    rw [Function.comp_apply, Module.functionName_of_function? hg] at hname
    cases h.unique hg hf hname
    cases hg.symm.trans hf
    exact hlink

theorem Within.of_precedes (h : u.Within r u') {v : UnitState} (hv : v.Precedes u') :
    u.Within u.defined.length v where
  heading := fun hf => by
    obtain ⟨f, hf, hh, -⟩ := hv.embeds.function hf
    obtain ⟨i, k, hk, hk'⟩ := h.heading hf
    exact ⟨i, k, hk, hk'.trans hh⟩
  collector := fun hc => h.collector (hv.raised hc)
  lacks := List.countP_le_length

theorem Within.new (u : UnitState) (name : String) :
    u.Within u.defined.length { module := { name } } where
  heading := nofun
  collector := nofun
  lacks := List.countP_le_length

end UnitState

namespace Recording

variable {env : Env} {T : StaticType → Prop} {depth : Nat} {r : Recording env T depth} {u : UnitState}

/-- A definition calls what it called at the end of its run. -/
theorem In.calledNames_eq (hp : env.program.CallsWithin (fun _ => True) T) (h : r.In u)
    {f g : Function} (hf : r.after.unit.module.function? r.id = some f)
    (hg : u.module.function? r.id = some g) :
    u.module.calledNames g = r.after.unit.module.calledNames f := by
  obtain ⟨k, linkage, hk, hold⟩ := h.function
  cases hf.symm.trans hk
  cases hg.symm.trans hold
  have hcallees : ({ f with linkage } : Function).callees = f.callees :=
    Function.callees_of_listed_eq rfl rfl
  rw [← (r.adds hp).1.calledNames_eq h.precedes hf, Module.calledNames, hcallees, Module.calledNames]

/-- The function that was generated is the current one. -/
theorem function_after (r : Recording env T depth) : r.after.frame.function = r.id :=
  ((Gen.generateBody_persists depth r.specialization r.body r.span r.start).ok r.run).2

/-- The run at any greater depth. -/
theorem run_deeper (r : Recording env T depth) {d' : Nat} (hle : depth ≤ d') (span : Span) :
    Gen.generateBody (Gen.generate d') r.specialization r.body span env
      (r.before.started r.specialization r.symbol r.params r.ret) = .ok () r.after := by
  have houtlasts := Gen.Outlasts.body (w := ⟨r.before.started r.specialization r.symbol r.params r.ret⟩)
    (Gen.Outlasts.nodes env hle) r.specialization r.span r.body
  obtain ⟨_, hrun, -⟩ := houtlasts.ok r.run
  exact Gen.generateBody_span hrun span

end Recording

/-! ## Similar programs -/

namespace Env.Similar

variable {env env' : Env} (h : env.Similar env')

include h

theorem symm : env'.Similar env := by
  obtain ⟨hr, funcs, hp⟩ := h
  refine ⟨hr.symm, env.program.entryPoints, ?_⟩
  rw [hp]

theorem compiles_eq : env'.program.compiles = env.program.compiles := by
  funext func
  rw [Program.compiles, Program.compiles, h.function?_eq]

theorem enters {func : FuncId} {decl : FunctionDecl} {sp : Specialization}
    (hsp : Compiler.Enters env.program func decl sp) : Compiler.Enters env'.program func decl sp where
  function := (h.function?_eq func).trans hsp.function
  notGeneric := hsp.notGeneric
  hasBody := hsp.hasBody
  resolve := (h.resolve_eq _ _ _ _ _).trans hsp.resolve

theorem distinctSymbols {T : StaticType → Prop} (hp : env.program.DistinctSymbols T) :
    env'.program.DistinctSymbols T := by
  obtain ⟨-, funcs, hfuncs⟩ := h
  rw [hfuncs]
  intro sp sp' hsp hsp' hsymbol
  have declared {sp : Specialization}
      (hsp : sp.Declared T { env.program with entryPoints := funcs }) : sp.Declared T env.program := by
    obtain ⟨⟨decl, argCount, span, hdecl, hbody, hres⟩, htypes⟩ := hsp
    exact ⟨⟨decl, argCount, span, hdecl, hbody, { hres with params := hres.params }⟩, htypes⟩
  exact hp sp sp' (declared hsp) (declared hsp') hsymbol

theorem exportedAs {func : FuncId} {e : String × String}
    (he : Compiler.ExportedAs env.program func e) : Compiler.ExportedAs env'.program func e := by
  obtain ⟨decl, sp, hsp, rfl⟩ := he
  exact ⟨decl, sp, h.enters hsp, by rw [h.symbol_eq]⟩

end Env.Similar

namespace Compiler

open Gen

variable {p : Program} {func : FuncId}

theorem ExportedAs.unique {e e' : String × String} (h : ExportedAs p func e)
    (h' : ExportedAs p func e') : e = e' := by
  obtain ⟨decl, sp, hsp, rfl⟩ := h
  obtain ⟨decl', sp', hsp', rfl⟩ := h'
  obtain ⟨rfl, rfl⟩ := hsp.unique hsp'
  rfl

/-! ## Compiling again -/

variable {env' : Env} {T : StaticType → Prop} {depth d r : Nat} {c : Compiler} {l l' : List FuncId}

/-- The definition of a compiled entry point is in the unit. -/
theorem Recorded.entered (h : c.Recorded T depth l) (hfunc : func ∈ l)
    (hcompiles : c.env.program.compiles func = true) : ∃ decl sp, Enters c.env.program func decl sp ∧
      ∃ id, c.unit.specializations.get? (sp.symbol c.env.program) = some id := by
  obtain ⟨e, he, decl, sp, hsp, rfl⟩ :
      ∃ e ∈ c.unit.module.exportedSymbols, ExportedAs c.env.program func e := by
    have hmem : func ∈ l.filter c.env.program.compiles := List.mem_filter.mpr ⟨hfunc, hcompiles⟩
    have hexports := h.exports
    generalize l.filter c.env.program.compiles = done at hmem hexports
    generalize c.unit.module.exportedSymbols = exported at hexports ⊢
    induction hexports with
    | nil => cases hmem
    | cons he _ ih =>
      rcases List.mem_cons.mp hmem with rfl | hmem
      · exact ⟨_, List.mem_cons_self, he⟩
      · obtain ⟨e, hmem, he⟩ := ih hmem
        exact ⟨e, List.mem_cons_of_mem _ hmem, he⟩
  obtain ⟨⟨name, id⟩, hid, heq⟩ := List.mem_map.mp he
  obtain ⟨f, hf, -⟩ := h.regular.exported.mp (List.mem_map_of_mem hid)
  have hname : c.unit.module.functionName id = sp.symbol c.env.program := congrArg Prod.snd heq
  rw [Module.functionName_of_function? hf] at hname
  exact ⟨decl, sp, hsp, id, h.regular.definition.mpr ⟨sp.isReserved_symbol _, f, hf, hname⟩⟩

/-- An entry point whose definition is in the given unit is compiled again. -/
theorem entryWithin_again {u : UnitState} (h : Replay c.env env' T depth u) {s : GenState}
    (hr : s.unit.Regular env'.program) (hw : u.Within r s.unit) (hd : depth * r ≤ d)
    {decl : FunctionDecl} {sp : Specialization} (hsp : Enters c.env.program func decl sp) {id : FunctionId}
    (hid : u.specializations.get? (sp.symbol c.env.program) = some id) :
    Leads env' s (entryWithin (fun _ => d) func)
      (fun _ t => t.unit.Regular env'.program ∧ u.Within r t.unit) fun _ _ => False := by
  refine entryWithin_requests (fun hno _ _ => hno decl sp (h.similar.enters hsp)) ?_
  intro decl' sp' body params ret hsp' hbody hparams hret
  obtain ⟨rfl, rfl⟩ := (h.similar.enters hsp).unique hsp'
  have hn : ∀ r', r = r' + 1 → Replay.Nodes c.env env' T u r' depth d := by
    rintro r' rfl
    refine h.nodes ?_
    rwa [Nat.mul_succ, Nat.add_comm] at hd
  obtain ⟨j, t, hrun, hobtains, hwithin⟩ := h.answer hn
    (hsp.requestable trivial hbody hparams hret) hid hr hw decl'.span
  refine .of_ok hrun ?_
  obtain ⟨f, hf, hname⟩ := hobtains.function
  have hdef : f.isDeclaration = false := by
    rw [hobtains.regular.kind hf, hname, sp'.isReserved_symbol]
    rfl
  exact ⟨hobtains.regular.exporting _ hf hdef, hwithin.of_level (.exporting t.unit _ hf hdef)⟩

/-- Entry points that have been compiled are compiled again, from any unit on that is still within the
given one. -/
theorem Recorded.compileAllAt_again (h : c.Recorded T depth l)
    (hreplay : Replay c.env env' T depth c.unit) (hd : depth * r ≤ d) {v : UnitState}
    (hr : v.Regular env'.program) (hw : c.unit.Within r v) (hl : ∀ func ∈ l', func ∈ l) :
    ∃ c', compileAllAt ⟨env', v⟩ d l' = .ok c' ∧ c.unit.Within r c'.unit := by
  induction l' generalizing v with
  | nil => exact ⟨_, rfl, hw⟩
  | cons func rest ih =>
    have hrest : ∀ func ∈ rest, func ∈ l := fun func hfunc => hl func (List.mem_cons_of_mem _ hfunc)
    have hfunc := hl func List.mem_cons_self
    obtain ⟨decl, hdecl⟩ := Option.isSome_iff_exists.mp (h.known func hfunc)
    unfold compileAllAt
    dsimp only
    rw [hreplay.similar.function?_eq, hdecl]
    dsimp only
    cases hg : decl.isGeneric with
    | true => exact ih hr hw hrest
    | false =>
      have hcompiles : c.env.program.compiles func = true := by
        rw [Program.compiles, hdecl, Option.any_some, hg]
        rfl
      obtain ⟨decl', sp, hsp, id, hid⟩ := h.entered hfunc hcompiles
      rcases compileEntryAt_leads (c := ⟨env', v⟩)
        (entryWithin_again (s := ⟨v, .outside⟩) hreplay hr hw hd hsp hid) with
        ⟨_, s, heq, hs⟩ | ⟨_, _, -, he⟩
      · rw [heq]
        exact ih hs.1 hs.2 hrest
      · exact he.elim

/-! ## Two compilers -/

/-- Compilers for similar programs that have compiled the same entry points, each in an order of its
own. -/
structure Reordered (T : StaticType → Prop) (depth depth' : Nat) (l l' : List FuncId)
    (c c' : Compiler) : Prop where
  replay : Replay c.env c'.env T depth c.unit
  replay' : Replay c'.env c.env T depth' c'.unit
  recorded : c.Recorded T depth l
  recorded' : c'.Recorded T depth' l'
  perm : l'.Perm l
  within : c.unit.Within c.unit.defined.length c'.unit
  within' : c'.unit.Within c'.unit.defined.length c.unit

variable {depth' : Nat} {c' : Compiler}

/-- What has been compiled in one order can be compiled in any other. -/
theorem exists_reordered {env env' : Env} (hs : env.Similar env') (hconfig : env'.config = env.config)
    (hp : env.program.CallsWithin (fun _ => True) T) (hd : env.program.DistinctSymbols T)
    (hl : l'.Perm l)
    (hc : (Compiler.new env.program env.config env.registry).compileAllAt depth l = .ok c) :
    ∃ depth' c', (Compiler.new env'.program env'.config env'.registry).compileAllAt depth' l' =
      .ok c' ∧ Reordered T depth depth' l l' c c' := by
  obtain ⟨h, henv⟩ : c.Recorded T depth l ∧ c.env = env := compileAllAt_recorded hp (.new _ _ _) hc
  subst henv
  have hp' := hs.callsWithin hp
  have replay : Replay c.env env' T depth c.unit := ⟨hs, hconfig, hp, hd, h.regular.unique, h.records⟩
  have hsubset : ∀ func ∈ l', func ∈ l := fun _ hfunc => hl.subset hfunc
  obtain ⟨c', hc', hw⟩ := h.compileAllAt_again replay (d := depth * c.unit.defined.length) le_rfl
    (.new env'.program env'.config.moduleName) (.new c.unit _) hsubset
  obtain ⟨h', henv'⟩ : c'.Recorded T _ l' ∧ c'.env = env' :=
    compileAllAt_recorded hp' (.new _ _ _) hc'
  subst henv'
  have replay' : Replay c'.env c.env T _ c'.unit :=
    ⟨hs.symm, hconfig.symm, hp', hs.distinctSymbols hd, h'.regular.unique, h'.records⟩
  -- the first list again, now with as much depth as that takes
  let enough := depth * c.unit.defined.length * c'.unit.defined.length + depth
  obtain ⟨c'', hc'', hw'⟩ := h'.compileAllAt_again replay' (d := enough) (Nat.le_add_right _ _)
    (.new c.env.program c.env.config.moduleName) (.new c'.unit _) fun _ hfunc => hl.symm.subset hfunc
  have hsame : (Compiler.new c.env.program c.env.config c.env.registry).compileAllAt enough l = _ :=
    compileAllAt_eq (Nat.le_add_left depth _) (by rw [hc]; nofun)
  cases hc''.symm.trans (hsame.trans hc)
  exact ⟨_, c', hc', replay, replay', h, h', hl, hw, hw'⟩

namespace Reordered

variable (h : Reordered T depth depth' l l' c c')

include h

/-- A definition is generated again in the state in which the other compiler has generated it. -/
theorem sameBody {r : Recording c.env T depth} {r' : Recording c'.env T depth'}
    (hr : r.In c.unit) (hr' : r'.In c'.unit) (hsymbol : r'.symbol = r.symbol) :
    r.after.SameBody r'.after := by
  have hsimilar := h.replay.similar
  have hrequestable := hsimilar.symm.requestable r'.requestable
  have hsp : r'.specialization = r.specialization := by
    refine h.replay.distinct _ _ hrequestable.declared r.requestable.declared ?_
    rw [← hsimilar.symbol_eq r'.specialization]
    exact hsymbol
  have hbefore : r'.before.unit.Precedes c'.unit :=
    (UnitState.Precedes.started _ _ _ _ r'.fresh).trans
      ((r'.adds h.replay'.calls).2.trans hr'.precedes)
  have hwithin : c.unit.Within (c.unit.defined.length + 1) r'.before.unit :=
    (h.within.of_precedes hbefore).mono (Nat.le_succ _)
  have hfresh : r'.before.unit.specializations.get? r.symbol = none := by
    rw [← hsymbol]
    exact r'.fresh
  obtain ⟨t, hrun, -, hbody, -⟩ := h.replay.follow (h.replay.nodes (Nat.le_add_right _ depth')) hr
    r'.regular hwithin hfresh
  -- both runs of the other compiler are one
  obtain ⟨hnode, hparams, hret⟩ := r.requestable.unique (hsp ▸ hrequestable)
  have hagain := r'.run_deeper (Nat.le_add_left depth' (depth + depth * c.unit.defined.length)) r.span
  rw [hsp, hnode, hparams, hret, hsymbol] at hagain
  cases hrun.symm.trans hagain
  exact hbody

end Reordered

end Compiler

end TypedLowering
