import TypedLowering.Proofs.Lowering.Request

/-!
What a successful compilation leaves on record. Each definition of the unit has come from a run of its
body that succeeded, in some regular unit without the definition, and has not changed since. So
whatever was done for a definition can be looked at again, apart from what was going on around it.
-/
namespace TypedLowering
set_option autoImplicit false
open Ssa

/-! ## Records -/

/-- A successful run of the body of a specialization that was still to be generated. -/
structure Recording (env : Env) (T : StaticType → Prop) (depth : Nat) where
  before : GenState
  after : GenState
  specialization : Specialization
  body : Node
  params : List Ty
  ret : Ty
  span : Span
  regular : before.unit.Regular env.program
  requestable : specialization.Requestable (fun _ => True) T env.program body params ret
  fresh : before.unit.specializations.get? (specialization.symbol env.program) = none
  run : Gen.generateBody (Gen.generate depth) specialization body span env
    (before.started specialization (specialization.symbol env.program) params ret) = .ok () after

namespace Recording

variable {env : Env} {T : StaticType → Prop} {depth : Nat} (r : Recording env T depth)

def symbol : String := r.specialization.symbol env.program

/-- The function that was generated. -/
def id : FunctionId := r.before.unit.module.nextFunction

/-- The state in which the body was entered. -/
def start : GenState := r.before.started r.specialization r.symbol r.params r.ret

/-- What the unit held before is kept, and so is the entry of the definition in the table. -/
theorem keeps : r.start.unit.Keeps r.after.unit (· = r.id) :=
  ((Gen.generateBody_persists depth r.specialization r.body r.span r.start).ok r.run).1

/-- The run has added to the unit, which is regular at its end. -/
theorem adds (hp : env.program.CallsWithin (fun _ => True) T) :
    r.after.unit.Regular env.program ∧ r.start.unit.Precedes r.after.unit := by
  have hrun := (Gen.regular_nodes hp depth).runsOn hp r.requestable (.entered r.regular
    r.specialization r.params r.ret r.fresh trivial r.requestable.declared) r.span
  exact ⟨(hrun.ok r.run).1, (hrun.ok r.run).2.1⟩

/-- The unit has grown out of the one at the end of the run, and the function is the same up to its
linkage. -/
structure In (u : UnitState) : Prop where
  precedes : r.after.unit.Precedes u
  function : ∃ f linkage, r.after.unit.module.function? r.id = some f ∧
    u.module.function? r.id = some { f with linkage }

variable {r} {u u' : UnitState}

theorem In.table (h : r.In u) : u.specializations.get? r.symbol = some r.id :=
  h.precedes.table (r.keeps.table (Dict.get?_insert_self _ _ _))

theorem In.heading (hp : env.program.CallsWithin (fun _ => True) T) (h : r.In u) :
    ∃ f, u.module.function? r.id = some f ∧ f.heading = (r.symbol, r.params, r.ret, false, false) := by
  obtain ⟨f, hf, hh, -⟩ := ((r.adds hp).2.trans h.precedes).embeds.function
    (r.before.unit.module.function?_addFunction_next _)
  exact ⟨f, hf, hh⟩

theorem In.later (h : r.In u) (hu : u.Precedes u')
    (hf : ∀ f, u.module.function? r.id = some f →
      ∃ linkage, u'.module.function? r.id = some { f with linkage }) : r.In u' where
  precedes := h.precedes.trans hu
  function := by
    obtain ⟨f, l, hafter, hold⟩ := h.function
    obtain ⟨l', hnew⟩ := hf _ hold
    exact ⟨f, l', hafter, hnew⟩

end Recording

/-- The definition of a symbol is on record. -/
def UnitState.Records (env : Env) (T : StaticType → Prop) (depth : Nat) (u : UnitState)
    (symbol : String) : Prop :=
  ∃ r : Recording env T depth, r.symbol = symbol ∧ r.In u

/-- What has been done since a unit: nothing has been exported, and all new definitions are on record,
but for the function under construction. -/
structure UnitState.RecordsSince (env : Env) (T : StaticType → Prop) (depth : Nat)
    (u base : UnitState) (own : FunctionId) : Prop where
  records : ∀ {symbol id}, u.specializations.get? symbol = some id →
    id = own ∨ base.specializations.get? symbol = some id ∨ u.Records env T depth symbol
  exports : u.module.exports = base.module.exports

def Condition.recording (env : Env) (T : StaticType → Prop) (depth : Nat) (base : UnitState) :
    Condition where
  holds own u := u.RecordsSince env T depth base own
  keep := by
    intro own u u' hu h
    refine ⟨fun {symbol id} hid => ?_, hu.exports.trans h.exports⟩
    rw [hu.specializations] at hid
    by_cases hown : id = own
    · exact .inl hown
    rcases h.records hid with hown | hbase | ⟨r, rfl, hr⟩
    · exact .inl hown
    · exact .inr (.inl hbase)
    · cases hr.table.symm.trans hid
      exact .inr (.inr ⟨r, rfl, hr.later hu.precedes fun f hf =>
        ⟨f.linkage, hu.keeps.functions.kept hown hf⟩⟩)
  passes := T

/-! ## Runs -/

namespace Gen

variable {env : Env} {T : StaticType → Prop} {depth d : Nat}

/-- A body that has been generated is on record, and so is what was generated on the way. -/
theorem body_recorded (hp : env.program.CallsWithin (fun _ => True) T)
    (hn : ∀ base, RegularNodes env (.recording env T depth base) (fun _ => True) d) (hd : d ≤ depth)
    {s : GenState} (hs : s.unit.Regular env.program) {base : UnitState} {own : FunctionId}
    (hbase : s.unit.RecordsSince env T depth base own)
    {sp : Specialization} {body : Node} {params : List Ty} {ret : Ty}
    (hsp : sp.Requestable (fun _ => True) T env.program body params ret)
    (hnone : s.unit.specializations.get? (sp.symbol env.program) = none) (span : Span) :
    RunsOn env (.recording env T depth base) own
      (s.started sp (sp.symbol env.program) params ret)
      (generateBody (Gen.generate d) sp body span) := by
  have hrun := (hn (s.started sp (sp.symbol env.program) params ret).unit).runsOn hp hsp
    (.entered hs sp params ret hnone ⟨fun h => .inr (.inl h), rfl⟩ hsp.declared) span
  refine .intro (fun _ t ht => ?_) fun e t he => hrun.error he
  obtain ⟨hr, hprec, hrecords, hexports⟩ := hrun.ok ht
  have hdeep : generateBody (Gen.generate depth) sp body span env
      (s.started sp (sp.symbol env.program) params ret) = .ok () t := by
    obtain ⟨_, ha, -⟩ := (Outlasts.body (w := ⟨_⟩) (Outlasts.nodes env hd) sp span body).ok ht
    exact ha
  let r : Recording env T depth := ⟨s, t, sp, body, params, ret, span, hs, hsp, hnone, hdeep⟩
  obtain ⟨f, hf, hh, -⟩ := hprec.embeds.function (s.unit.module.function?_addFunction_next _)
  have hrecord : t.unit.Records env T depth (sp.symbol env.program) :=
    ⟨r, rfl, .refl _, f, f.linkage, hf, hf⟩
  refine ⟨hr, hprec, fun {symbol id} hid => ?_, hexports.trans hbase.exports⟩
  rcases hrecords hid with rfl | hstarted | hrec
  · obtain ⟨-, g, hg, rfl⟩ := hr.definition.mp hid
    cases hf.symm.trans hg
    rw [Function.name_of_heading hh]
    exact .inr (.inr hrecord)
  · by_cases hsymbol : sp.symbol env.program = symbol
    · exact .inr (.inr (hsymbol ▸ hrecord))
    · have hold : s.unit.specializations.get? symbol = some id :=
        (Dict.get?_insert_of_ne _ _ hsymbol).symm.trans hstarted
      have hkeeps : s.unit.Keeps t.unit fun _ => False :=
        Persists.keeps_of_started (show s.unit.specializations.get? r.symbol = none from hnone) r.keeps
      have hp' := (UnitState.Precedes.started s sp params ret hnone).trans hprec
      refine (hbase.records hold).imp_right (.imp_right ?_)
      rintro ⟨r', rfl, hr'⟩
      exact ⟨r', rfl, hr'.later hp' fun f hf => ⟨f.linkage, hkeeps.functions.kept not_false hf⟩⟩
  · exact .inr (.inr hrec)

/-- Whatever is generated is on record. -/
theorem recorded_nodes (hp : env.program.CallsWithin (fun _ => True) T) :
    ∀ {d : Nat}, d ≤ depth → ∀ base : UnitState,
      RegularNodes env (.recording env T depth base) (fun _ => True) d
  | 0, _, _, _, _ => fun w => .of_error rfl (.refl w.state.unit)
  | d + 1, hd, base, n, hn => by
    have hnodes (base : UnitState) :
        RegularNodes env (.recording env T depth base) (fun _ => True) d :=
      recorded_nodes hp (Nat.le_of_succ_le hd) base
    refine (hnodes base).succ hp (fun w sp body params ret span hsp hnone => ?_) n hn
    exact body_recorded hp hnodes (Nat.le_of_succ_le hd) w.regular w.condition hsp hnone span

end Gen

/-! ## Entry points -/

/-- Whether an entry point is a function that is compiled: generic ones are passed over. -/
def Program.compiles (p : Program) (func : FuncId) : Bool :=
  (p.function? func).any fun decl => !decl.isGeneric

/-- The names that a module exports, with the symbols of the functions. -/
def Ssa.Module.exportedSymbols (m : Module) : List (String × String) :=
  m.exports.toList.map fun e => (e.1, m.functionName e.2)

namespace UnitState.Regular

variable {p : Program} {u u' : UnitState}

/-- Functions keep their names, so what is exported goes on being exported. -/
theorem exportedSymbols_eq (h : u.Regular p) (hu : u.Precedes u')
    (he : u'.module.exports = u.module.exports) :
    u'.module.exportedSymbols = u.module.exportedSymbols := by
  unfold Module.exportedSymbols
  rw [he]
  refine List.map_congr_left fun e hmem => ?_
  obtain ⟨f, hf, -⟩ := h.exported.mp (List.mem_map_of_mem hmem)
  obtain ⟨f', hf', hh, -⟩ := hu.embeds.function hf
  rw [Module.functionName_of_function? hf, Module.functionName_of_function? hf',
    Function.name_of_heading hh]

theorem exportedSymbols_exporting (h : u.Regular p) (name : String) {id : FunctionId} {f : Function}
    (hf : u.module.function? id = some f) (hdef : f.isDeclaration = false) :
    (u.exporting name id).module.exportedSymbols = u.module.exportedSymbols ++ [(name, f.name)] := by
  have hp := Precedes.exporting u name hf hdef
  have hname {i : FunctionId} {k : Function} (hk : u.module.function? i = some k) :
      (u.exporting name id).module.functionName i = k.name := by
    obtain ⟨k', hk', hh, -⟩ := hp.embeds.function hk
    rw [Module.functionName_of_function? hk', Function.name_of_heading hh]
  have hexports : (u.exporting name id).module.exports = u.module.exports.push (name, id) := rfl
  unfold Module.exportedSymbols
  rw [hexports, Array.toList_push, List.map_append, List.map_singleton, hname hf]
  congr 1
  refine List.map_congr_left fun e hmem => ?_
  obtain ⟨k, hk, -⟩ := h.exported.mp (List.mem_map_of_mem hmem)
  rw [hname hk, Module.functionName_of_function? hk]

end UnitState.Regular

namespace Compiler

open Gen

/-- An entry point, with the name and the symbol it is exported under. -/
def ExportedAs (p : Program) (func : FuncId) (e : String × String) : Prop :=
  ∃ decl sp, Enters p func decl sp ∧ e = (decl.name, sp.symbol p)

/-- What is known of a compiler that has compiled a list of entry points. -/
structure Recorded (T : StaticType → Prop) (depth : Nat) (done : List FuncId) (c : Compiler) :
    Prop where
  known : ∀ func ∈ done, (c.env.program.function? func).isSome = true
  regular : c.unit.Regular c.env.program
  records : ∀ {symbol id}, c.unit.specializations.get? symbol = some id →
    c.unit.Records c.env T depth symbol
  exports : List.Forall₂ (ExportedAs c.env.program) (done.filter c.env.program.compiles)
    c.unit.module.exportedSymbols

variable {T : StaticType → Prop} {depth : Nat} {c c' : Compiler} {done : List FuncId}

theorem Recorded.new (p : Program) (config : Config) (registry : Registry) :
    Recorded T depth [] (.new p config registry) :=
  ⟨nofun, .new p config.moduleName, (fun h => by cases h), .nil⟩

theorem entry_recorded (hp : c.env.program.CallsWithin (fun _ => True) T)
    (h : c.Recorded T depth done) {func : FuncId} (hfunc : c.env.program.compiles func = true) :
    Leads c.env { unit := c.unit, frame := .outside } (entryWithin (fun _ => depth) func)
      (fun _ s => Recorded T depth (done ++ [func]) { c with unit := s.unit }) fun _ _ => True := by
  refine entryWithin_requests (fun _ _ _ => trivial) fun decl sp body params ret hsp hbody hparams
    hret => .intro (fun id t ht => ?_) fun _ _ _ => trivial
  have hrequestable : sp.Requestable (fun _ => True) T c.env.program body params ret :=
    hsp.requestable trivial hbody hparams hret
  -- nothing is under construction, so the condition holds with any number for the function that is
  have hrun (own : FunctionId) : Obtains c.env.program { unit := c.unit, frame := .outside }
      (sp.symbol c.env.program) id t ∧
        t.unit.RecordsSince c.env T depth { module := c.unit.module } own := by
    have hI : c.unit.RecordsSince c.env T depth { module := c.unit.module } own :=
      ⟨fun hid => .inr (.inr (h.records hid)), rfl⟩
    refine (requestDefinition_regular (I := .recording c.env T depth { module := c.unit.module })
      (s := { unit := c.unit, frame := .outside }) own h.regular hI fun hnone => ?_).ok ht
    exact body_recorded hp (recorded_nodes hp le_rfl) le_rfl h.regular hI hrequestable hnone decl.span
  obtain ⟨hobtains, hrecords⟩ := hrun t.unit.module.nextFunction
  obtain ⟨f, hf, hname⟩ := hobtains.function
  have hdef : f.isDeclaration = false := by
    rw [hobtains.regular.kind hf, hname, sp.isReserved_symbol]
    rfl
  have hp' := UnitState.Precedes.exporting t.unit decl.name hf hdef
  refine ⟨fun other hother => ?_, hobtains.regular.exporting decl.name hf hdef,
    fun {symbol i} hi => ?_, ?_⟩
  · rcases List.mem_append.mp hother with hold | hnew
    · exact h.known other hold
    · rw [List.mem_singleton.mp hnew, hsp.function]
      rfl
  · have hi : t.unit.specializations.get? symbol = some i := hi
    rcases hrecords.records hi with rfl | hnone | ⟨r, rfl, hr⟩
    · obtain ⟨-, g, hg, -⟩ := hobtains.regular.definition.mp hi
      exact (Module.ne_nextFunction hg rfl).elim
    · cases hnone
    · refine ⟨r, rfl, hr.later hp' fun g hg => ?_⟩
      show ∃ linkage, (t.unit.module.addExport decl.name id).function? r.id = _
      rw [Module.function?_addExport, hg]
      split
      · exact ⟨_, rfl⟩
      · exact ⟨g.linkage, rfl⟩
  · have hnew : (t.unit.exporting decl.name id).module.exportedSymbols =
        c.unit.module.exportedSymbols ++ [(decl.name, sp.symbol c.env.program)] := by
      rw [← h.regular.exportedSymbols_eq hobtains.precedes hrecords.exports, ← hname]
      exact hobtains.regular.exportedSymbols_exporting decl.name hf hdef
    rw [List.filter_append, List.filter_cons_of_pos hfunc, List.filter_nil]
    show List.Forall₂ _ _ (t.unit.exporting decl.name id).module.exportedSymbols
    rw [hnew]
    exact List.rel_append h.exports (.cons ⟨decl, sp, hsp, rfl⟩ .nil)

/-- The definitions of compiled entry points are on record. -/
theorem compileAllAt_recorded (hp : c.env.program.CallsWithin (fun _ => True) T)
    (h : c.Recorded T depth done) {funcs : List FuncId} (hok : c.compileAllAt depth funcs = .ok c') :
    c'.Recorded T depth (done ++ funcs) ∧ c'.env = c.env := by
  refine compileAllAt_induction (P := fun done c₁ => c₁.Recorded T depth done ∧ c₁.env = c.env)
    ?_ ?_ done ⟨h, rfl⟩ hok
  · rintro c₁ done func decl ⟨h₁, henv⟩ hdecl hg
    refine ⟨{ h₁ with known := fun other hother => ?_, exports := ?_ }, henv⟩
    · rcases List.mem_append.mp hother with hold | hnew
      · exact h₁.known other hold
      · rw [List.mem_singleton.mp hnew, hdecl]
        rfl
    have hpassed : ¬ c₁.env.program.compiles func = true := by
      rw [Program.compiles, hdecl, Option.any_some, hg]
      exact Bool.false_ne_true
    rw [List.filter_append, List.filter_cons_of_neg hpassed, List.filter_nil, List.append_nil]
    exact h₁.exports
  · rintro c₁ c₂ done func decl id ⟨h₁, henv⟩ hdecl hg hrun
    have hfunc : c₁.env.program.compiles func = true := by
      rw [Program.compiles, hdecl, Option.any_some, hg]
      rfl
    rcases compileEntryAt_leads (entry_recorded (henv ▸ hp) h₁ hfunc) with
      ⟨_, s, heq, hs⟩ | ⟨_, _, heq, -⟩
    · cases hrun.symm.trans heq
      exact ⟨hs, henv⟩
    · cases hrun.symm.trans heq

end Compiler

end TypedLowering
