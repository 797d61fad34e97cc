import TypedLowering.Proofs.Lowering.Request

/-!
The table of symbols of a compiled module. A function that is declared is looked up before it is
added, a definition is looked up in the table of specializations alone. So a definition takes over the
name of a function that was declared under a reserved name, and only such a name has two functions.
-/
namespace TypedLowering
set_option autoImplicit false
open Ssa

/-! ## Bindings -/

namespace UnitState

variable {u u' : UnitState}

/-- Names are bound to functions that have them. A function that its name does not lead to has been
followed by a specialization of that name, and no name has been taken over twice. -/
structure Binds (u : UnitState) : Prop where
  names : ∀ {name id}, u.module.lookup name = some id → ∃ f, u.module.function? id = some f ∧ f.name = name
  found : ∀ {i f}, u.module.function? i = some f → u.module.lookup f.name = some i ∨
    ∃ j, u.specializations.get? f.name = some j ∧ i.index < j.index
  table : ∀ {symbol id}, u.specializations.get? symbol = some id →
    u.module.lookup symbol = some id ∧ Mangling.isReserved symbol = true
  once : ∀ {i j f g}, u.module.function? i = some f → u.module.function? j = some g → f.name = g.name →
    u.module.lookup f.name ≠ some i → u.module.lookup f.name ≠ some j → i = j

namespace Binds

/-- A unit with the same tables and functions of the same names. -/
theorem of_names (h : u.Binds) (hs : u'.module.symbols = u.module.symbols)
    (ht : u'.specializations = u.specializations)
    (hold : ∀ {i f'}, u'.module.function? i = some f' →
      ∃ f, u.module.function? i = some f ∧ f.name = f'.name)
    (hnew : ∀ {i f}, u.module.function? i = some f →
      ∃ f', u'.module.function? i = some f' ∧ f'.name = f.name) : u'.Binds := by
  have hl (name : String) : u'.module.lookup name = u.module.lookup name := by
    rw [Module.lookup, hs]
    rfl
  refine ⟨fun hn => ?_, fun hf => ?_, fun hi => ?_, fun hf hg hname hi hj => ?_⟩
  · obtain ⟨f, hf, rfl⟩ := h.names ((hl _).symm.trans hn)
    exact hnew hf
  · obtain ⟨f, hf, hn⟩ := hold hf
    rw [hl, ht, ← hn]
    exact h.found hf
  · rw [hl]
    exact h.table (ht ▸ hi)
  · obtain ⟨f, hf, hn⟩ := hold hf
    obtain ⟨g, hg, hn'⟩ := hold hg
    rw [hl, ← hn] at hi hj
    exact h.once hf hg (hn.trans (hname.trans hn'.symm)) hi hj

theorem of_alike {s s' : GenState} (h : s.unit.Binds) (ha : s.Alike s') : s'.unit.Binds := by
  refine h.of_names ha.symbols ha.specializations (fun {i f'} hf => ⟨f', ?_, rfl⟩)
    fun {i f} hf => ⟨f, ?_, rfl⟩
  · rwa [← ha.function?]
  · rwa [ha.function?]

theorem modifyFunction (h : u.Binds) {id : FunctionId} {g : Function → Function}
    (hg : ∀ f, (g f).name = f.name) (hm : u'.module.functions = (u.module.modifyFunction id g).functions)
    (hs : u'.module.symbols = u.module.symbols) (ht : u'.specializations = u.specializations) :
    u'.Binds := by
  have hfunction (i : FunctionId) : u'.module.function? i =
      if id = i then (u.module.function? i).map g else u.module.function? i := by
    rw [← u.module.function?_modifyFunction, Module.function?, hm]
    rfl
  refine h.of_names hs ht (fun {i f'} hf => ?_) fun {i f} hf => ?_
  · rw [hfunction] at hf
    split at hf
    · obtain ⟨k, hk, rfl⟩ := Option.map_eq_some_iff.mp hf
      exact ⟨k, hk, (hg k).symm⟩
    · exact ⟨f', hf, rfl⟩
  · rw [hfunction, hf]
    split
    · exact ⟨g f, rfl, hg f⟩
    · exact ⟨f, rfl, rfl⟩

/-- A function under a name that no specialization has. Whatever had the name has lost it. -/
theorem addFunction (h : u.Binds) {f : Function} (hm : u'.module = u.module.addFunction f)
    (hnone : u.specializations.get? f.name = none)
    (hkept : ∀ {symbol id}, u.specializations.get? symbol = some id →
      u'.specializations.get? symbol = some id)
    (htable : ∀ {symbol id}, u'.specializations.get? symbol = some id →
      u.specializations.get? symbol = some id ∨
        symbol = f.name ∧ id = u.module.nextFunction ∧ Mangling.isReserved symbol = true)
    (hfree : u.module.lookup f.name = none ∨
      u'.specializations.get? f.name = some u.module.nextFunction) : u'.Binds := by
  have hself : u'.module.lookup f.name = some u.module.nextFunction := by
    rw [hm]
    exact u.module.lookup_addFunction_self f
  have hother {name : String} (hne : f.name ≠ name) : u'.module.lookup name = u.module.lookup name := by
    rw [hm, Module.lookup, Module.addFunction]
    exact Dict.get?_insert_of_ne _ _ hne
  have hcases {i : FunctionId} {k : Function} (hk : u'.module.function? i = some k) :
      (i = u.module.nextFunction ∧ k = f) ∨
        (i.index < u.module.nextFunction.index ∧ u.module.function? i = some k) := by
    rw [hm] at hk
    by_cases hi : i = u.module.nextFunction
    · rw [hi, u.module.function?_addFunction_next] at hk
      exact .inl ⟨hi, (Option.some.inj hk).symm⟩
    · rw [u.module.function?_addFunction_of_ne hi] at hk
      exact .inr ⟨(Array.getElem?_eq_some_iff.mp hk).1, hk⟩
  -- a function that had the name was found under it
  have hlast {i : FunctionId} {k : Function} (hk : u.module.function? i = some k)
      (hname : k.name = f.name) : u.module.lookup f.name = some i := by
    rw [← hname]
    rcases h.found hk with hl | ⟨j, hj, -⟩
    · exact hl
    · rw [hname, hnone] at hj
      cases hj
  refine ⟨fun {name id} hn => ?_, fun {i k} hk => ?_, fun {symbol id} hid => ?_,
    fun {i j k k'} hk hk' hname hi hj => ?_⟩
  · by_cases hne : f.name = name
    · subst hne
      cases hself.symm.trans hn
      exact ⟨f, by rw [hm]; exact u.module.function?_addFunction_next f, rfl⟩
    · obtain ⟨k, hk, hkn⟩ := h.names ((hother hne).symm.trans hn)
      exact ⟨k, by rw [hm]; exact getElem?_push_of_some hk, hkn⟩
  · rcases hcases hk with ⟨rfl, rfl⟩ | ⟨hlt, hk⟩
    · exact .inl hself
    · by_cases hne : f.name = k.name
      · rcases hfree with hfree | hid
        · rw [hlast hk hne.symm] at hfree
          cases hfree
        · exact .inr ⟨_, hne ▸ hid, hlt⟩
      · rw [hother hne]
        refine (h.found hk).imp id ?_
        rintro ⟨j, hj, hij⟩
        exact ⟨j, hkept hj, hij⟩
  · rcases htable hid with hold | ⟨rfl, rfl, hr⟩
    · have hne : f.name ≠ symbol := by
        rintro rfl
        cases hnone.symm.trans hold
      rw [hother hne]
      exact h.table hold
    · exact ⟨hself, hr⟩
  · rcases hcases hk with ⟨rfl, rfl⟩ | ⟨-, hk⟩
    · exact (hi hself).elim
    · rcases hcases hk' with ⟨rfl, rfl⟩ | ⟨-, hk'⟩
      · rw [hname] at hj
        exact (hj hself).elim
      · by_cases hne : f.name = k.name
        · have hold := hlast hk hne.symm
          rw [hlast hk' (hname.symm.trans hne.symm)] at hold
          exact (Option.some.inj hold).symm
        · rw [hother hne] at hi hj
          exact h.once hk hk' hname hi hj

theorem declare (h : u.Binds) {f : Function} (hfree : u.module.lookup f.name = none) :
    (u.declare f).Binds := by
  refine h.addFunction (f := f) rfl ?_ id .inl (.inl hfree)
  cases hid : u.specializations.get? f.name with
  | none => rfl
  | some id => cases hfree.symm.trans (h.table hid).1

theorem started {s : GenState} (h : s.unit.Binds) (p : Program) (sp : Specialization) (params : List Ty)
    (ret : Ty) (hnone : s.unit.specializations.get? (sp.symbol p) = none) :
    (s.started sp (sp.symbol p) params ret).unit.Binds := by
  refine h.addFunction rfl hnone (UnitState.Precedes.started s sp params ret hnone).table
    (fun {symbol id} hid => ?_) (.inr (Dict.get?_insert_self _ _ _))
  by_cases hne : sp.symbol p = symbol
  · subst hne
    cases (Dict.get?_insert_self _ _ _).symm.trans hid
    exact .inr ⟨rfl, rfl, sp.isReserved_symbol p⟩
  · exact .inl ((Dict.get?_insert_of_ne _ _ hne).symm.trans hid)

end Binds

end UnitState

/-! ## Runs -/

namespace Gen

variable {α β : Type} {env : Env}

/-- Every run of `m` keeps names bound. -/
abbrev Binding (env : Env) : (α : Type) → Gen α → Prop :=
  Upholds env (fun s => s.unit.Binds) fun _ _ => True

namespace Binding

theorem aside {m : Gen α} (hm : Aside env m) : Binding env α m := fun s hs =>
  (hm s).mono (fun _ _ ha => hs.of_alike ha) fun _ _ _ => trivial

theorem step {m : Gen α} (h : ∀ s, ∃ a g, m env s = .ok a (s.mapFunction g) ∧
    ∀ f, (g f).name = f.name) : Binding env α m := by
  intro s hs
  obtain ⟨a, g, hm, hg⟩ := h s
  exact .of_ok hm (hs.modifyFunction hg rfl rfl rfl)

protected theorem bind {m : Gen α} {f : α → Gen β} (hm : Binding env α m)
    (hf : ∀ a, (∃ s s', s.unit.Binds ∧ m env s = .ok a s') → Binding env β (f a)) :
    Binding env β (m >>= f) := fun s hs =>
  (hm s hs).bind fun a s' hrun hs' => hf a ⟨s, s', hs, hrun⟩ s' hs'

theorem requireOpen : Binding env Unit requireOpen := by
  intro s hs
  refine .read rfl ?_
  split
  · exact .of_error rfl trivial
  · exact .pure hs

theorem declareExternal (name : String) (params : List Ty) (ret : Ty) (attrs : Attributes)
    (variadic : Bool) (span : Span) :
    Binding env _ (declareExternal name params ret attrs variadic span) := by
  intro s hs
  refine .read rfl ?_
  cases hl : s.unit.module.lookup name with
  | none =>
    obtain ⟨f, hd, hh, -⟩ := Module.declare_new params ret attrs variadic hl
    have hname : f.name = name := congrArg Prod.fst hh
    rw [hd]
    exact .of_ok rfl (hs.declare (by rwa [hname]))
  | some id =>
    obtain ⟨f, hf, hname⟩ := hs.names hl
    by_cases hh : f.heading = (name, params, ret, variadic, true)
    · rw [Module.declare_known hl hf hh]
      exact .of_ok rfl hs
    · rw [Module.declare_conflict hl hf hname hh]
      exact .of_error rfl trivial

theorem pervasive : Pervasive env (fun s => s.unit.Binds) (fun _ => True) (Binding env) where
  aside := aside
  bind := .bind
  emit := fun _ => .bind requireOpen fun _ _ => step fun _ => ⟨_, _, rfl, fun _ => rfl⟩
  emitSlot := fun _ => step fun _ => ⟨_, _, rfl, fun _ => rfl⟩
  declare := declareExternal
  terminate := fun _ => .bind requireOpen fun _ _ => step fun _ => ⟨_, _, rfl, fun _ => rfl⟩
  appendBlock := fun _ => step fun _ => ⟨_, _, rfl, fun _ => rfl⟩
  modifyFrame := fun _ _ _ hs => .of_ok rfl hs
  specialize := by
    intro generate signature sp span _ _ hb s hs
    refine specialize_leads (fun _ _ _ => trivial) ?_ ?_ ?_
    · intro _ _ _ _ _ _ _
      exact declareExternal _ _ _ _ _ _ s hs
    · intro _ _ _ _ _ _ _ _
      exact ⟨hs.names, hs.found, hs.table, hs.once⟩
    · intro decl body params ret hdecl hbody _ _ hnone
      exact hb decl body hdecl hbody _ (hs.started env.program sp params ret hnone)

end Binding

end Gen

namespace Compiler

variable {c c' : Compiler}

theorem compileEntry_binds (h : c.unit.Binds) (func : FuncId) {id : FunctionId}
    (hok : (c.compileEntry func).1 = .ok id) : (c.compileEntry func).2.unit.Binds := by
  have hentry := Gen.Binding.pervasive.entry c.env.program.appliesAt_trivial
    (fun name id s hs => .of_ok rfl (hs.modifyFunction
      (g := fun f => { f with linkage := .exported }) (fun _ => rfl) rfl rfl rfl)) func
    c.start h
  rcases compileEntry_leads hentry with ⟨_, s, -, hu, hq⟩ | ⟨e, _, he, -⟩
  · rw [hu]
    exact hq
  · cases he.symm.trans hok

end Compiler

/-! ## Results -/

/-- A function that is only declared, under a reserved name, where a specialization of that name has
been generated later and is found in its place. -/
def Ssa.Module.Overtaken (m : Module) (i : FunctionId) (f : Function) : Prop :=
  f.isDeclaration = true ∧ Mangling.isReserved f.name = true ∧
    ∃ j g, m.lookup f.name = some j ∧ m.function? j = some g ∧ g.isDeclaration = false ∧
      i.index < j.index

namespace UnitState.Binds

variable {u : UnitState}

/-- A function that is not found under its name has been overtaken. -/
theorem overtaken (h : u.Binds) (ho : u.Orderly) {i : FunctionId} {f : Function}
    (hf : u.module.function? i = some f) :
    u.module.lookup f.name = some i ∨ u.module.Overtaken i f := by
  refine (h.found hf).imp id ?_
  rintro ⟨j, hj, hij⟩
  obtain ⟨hl, hr⟩ := h.table hj
  obtain ⟨g, hg, hdef, -⟩ := ho.table.mp hj
  refine ⟨?_, hr, j, g, hl, hg, hdef, hij⟩
  cases hk : f.isDeclaration with
  | true => rfl
  | false =>
    -- a definition is the one in the table
    cases hj.symm.trans (ho.table.mpr ⟨f, hf, hk, rfl⟩)
    exact (Nat.lt_irrefl _ hij).elim

/-- Functions of one name are of different kinds, or one function. -/
theorem unique (h : u.Binds) (ho : u.Orderly) {i j : FunctionId} {f g : Function}
    (hf : u.module.function? i = some f) (hg : u.module.function? j = some g) (hname : f.name = g.name)
    (hkind : f.isDeclaration = g.isDeclaration) : i = j := by
  have found {i : FunctionId} {f : Function} (hf : u.module.function? i = some f)
      (hl : u.module.lookup f.name = some i) {k : FunctionId} {k' : Function}
      (hk : u.module.function? k = some k') (hname : k'.name = f.name)
      (hkind : k'.isDeclaration = f.isDeclaration) : k = i := by
    rcases h.overtaken ho hk with hlk | ⟨hdecl, -, j, g, hlj, hg, hdef, -⟩
    · rw [hname, hl] at hlk
      exact (Option.some.inj hlk).symm
    · rw [hname, hl] at hlj
      cases hlj
      cases hf.symm.trans hg
      rw [hkind, hdef] at hdecl
      cases hdecl
  by_cases hi : u.module.lookup f.name = some i
  · exact (found hf hi hg hname.symm hkind.symm).symm
  · by_cases hj : u.module.lookup g.name = some j
    · exact found hg hj hf hname hkind
    · exact h.once hf hg hname hi (hname ▸ hj)

end UnitState.Binds

/-- Functions that are found under their names have distinct names. -/
theorem Ssa.Module.nodup_names {m : Module}
    (h : ∀ i f, m.function? i = some f → m.lookup f.name = some i) :
    (m.functions.toList.map Function.name).Nodup := by
  rw [List.nodup_iff_getElem?_ne_getElem?]
  intro i j hij hj heq
  rw [List.length_map] at hj
  have hf := List.getElem?_eq_getElem (Nat.lt_trans hij hj)
  have hg := List.getElem?_eq_getElem hj
  rw [List.getElem?_map, List.getElem?_map, hf, hg, Option.map_some, Option.map_some] at heq
  have hi := h ⟨i⟩ _ (Array.getElem?_toList.symm.trans hf)
  have hj := h ⟨j⟩ _ (Array.getElem?_toList.symm.trans hg)
  rw [Option.some.inj heq, hj] at hi
  cases hi
  exact Nat.lt_irrefl _ hij

theorem Compiler.compileAll_binds {c c' : Compiler} (hb : c.unit.Binds) {funcs : List FuncId}
    (h : c.compileAll funcs = .ok c') : c'.unit.Binds :=
  compileAll_induction (P := fun c => c.unit.Binds) (fun hc hok => compileEntry_binds hc _ hok) hb h

/-- The symbols of a compiled program. A function is found under its name, unless it is a declaration
under a reserved name which a specialization generated later has taken over; so two functions of one
name are one definition and one declaration. If the program declares no function under a reserved
name, all functions have distinct names and are found under them. -/
theorem compile_symbols {p : Program} {config : Config} {out : Output}
    (h : compile p config = .ok out) :
    (∀ i f, out.module.function? i = some f →
      out.module.lookup f.name = some i ∨ out.module.Overtaken i f) ∧
    (∀ i j f g, out.module.function? i = some f → out.module.function? j = some g → i ≠ j →
      f.name = g.name → f.isDeclaration ≠ g.isDeclaration) ∧
    (p.SparesSymbols → (out.module.functions.toList.map Function.name).Nodup ∧
      ∀ i f, out.module.function? i = some f → out.module.lookup f.name = some i) := by
  obtain ⟨c, hc, hout⟩ := except_bind_ok h
  cases hout
  have hbinds : c.unit.Binds := Compiler.compileAll_binds
    ⟨(fun hn => by cases hn), (fun hf => by cases hf), (fun hi => by cases hi),
      fun hf => by cases hf⟩ hc
  have horderly := (Compiler.compileAll_follows (Compiler.orderly_new p config .standard) hc).1
  refine ⟨fun i f hf => hbinds.overtaken horderly hf,
    fun i j f g hf hg hne hname hkind => hne (hbinds.unique horderly hf hg hname hkind), fun hp => ?_⟩
  have hregular := (Compiler.compileAll_regular (c := .new p config .standard) hp
    (.new p config.moduleName) hc).1
  exact ⟨Module.nodup_names fun _ _ hf => hregular.found hf, fun _ _ hf => hregular.found hf⟩

/-- A program that declares a function under the name of a specialization and calls it first:
`declare function _brisk_1g(): void; function g(): void {} function main(): void { _brisk_1g(); g(); }`. -/
def overtakingProgram : Program :=
  let node (form : Form Node) : Node := .mk ⟨0⟩ .dummy .void form
  let call (name : String) (func : FuncId) : Node :=
    node (.expressionStatement (node (.call (node (.identifier name)) [] (some ⟨func, []⟩))))
  { functions := #[
      { name := "_brisk_1g", ret := .void },
      { name := "g", ret := .void, body := some (node (.block [])) },
      { name := "main", ret := .void
        body := some (node (.block [call "_brisk_1g" ⟨0⟩, call "g" ⟨1⟩])) }]
    entryPoints := [⟨2⟩] }

theorem compile_overtakingProgram :
    ((compile overtakingProgram {}).map fun out =>
      (out.module.functions.toList.map fun f => (f.name, f.isDeclaration),
        out.module.lookup "_brisk_1g")).toOption =
      some ([("_brisk_4main", false), ("_brisk_1g", true), ("_brisk_1g", false)], some ⟨2⟩) := by
  decide +kernel

/-- Both functions are in the module; in a program without such a declaration names are distinct. -/
theorem compile_symbols_overtaking :
    (∃ out f, compile overtakingProgram {} = .ok out ∧ out.module.function? ⟨1⟩ = some f ∧
      out.module.Overtaken ⟨1⟩ f) ∧
    boxingProgram.SparesSymbols ∧ ∃ out, compile boxingProgram {} = .ok out ∧
      (out.module.functions.toList.map Function.name).Nodup := by
  constructor
  · obtain ⟨out, hc, heq⟩ := except_map_ok compile_overtakingProgram
    have hnames := congrArg (fun x => x.1[1]?) heq
    have hlookup := congrArg Prod.snd heq
    simp only [List.getElem?_map] at hnames
    obtain ⟨f, hf, hpair⟩ := Option.map_eq_some_iff.mp hnames
    rw [Array.getElem?_toList] at hf
    have hname : f.name = "_brisk_1g" := congrArg Prod.fst hpair
    refine ⟨out, f, hc, hf, ?_⟩
    rcases (compile_symbols hc).1 ⟨1⟩ f hf with hl | hover
    · rw [hname] at hl
      cases hl.symm.trans hlookup
    · exact hover
  · have hspares : boxingProgram.SparesSymbols := by
      intro decl hdecl hnone
      cases List.mem_singleton.mp (Array.mem_toList_iff.mpr hdecl)
      cases hnone
    obtain ⟨out, hc, -⟩ := except_map_ok compile_boxingProgram
    exact ⟨hspares, out, hc, ((compile_symbols hc).2.2 hspares).1⟩

end TypedLowering
