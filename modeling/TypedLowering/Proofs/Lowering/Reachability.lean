import TypedLowering.Proofs.Order.Recording

/-!
What a compiled module consists of. A definition is generated before anything calls it and while the
body of its caller is under construction, so in between it is only reached from the request for it.
The call that follows makes up for this, or the export where an entry point has requested it. In the
end every definition is reached from the exports along calls, and exactly the exports are visible.
-/
namespace TypedLowering
set_option autoImplicit false
open Ssa

/-! ## Modules -/

namespace Ssa.Module

variable {m m' m'' : Module} {roots roots' : FunctionId → Prop} {id : FunctionId} {f : Function}

/-- The functions that calls lead to from given ones. -/
inductive Reached (m : Module) (roots : FunctionId → Prop) : FunctionId → Prop
  | root {id : FunctionId} (h : roots id) : Reached m roots id
  | call {id callee : FunctionId} {f : Function} (h : Reached m roots id)
      (hf : m.function? id = some f) (hc : callee ∈ f.callees) : Reached m roots callee

/-- Functions stay, with their names, blocks and calls. -/
structure Retains (m m' : Module) : Prop where
  function : ∀ {id f}, m.function? id = some f →
    ∃ f', m'.function? id = some f' ∧ f.Carries f' ∧ ∀ c ∈ f.callees, c ∈ f'.callees

namespace Retains

theorem of_functions_eq (h : m'.functions = m.functions) : m.Retains m' :=
  ⟨fun {_ f} hf => ⟨f, by rwa [function?, h], .refl f, fun _ hc => hc⟩⟩

theorem refl (m : Module) : m.Retains m := of_functions_eq rfl

theorem trans (h : m.Retains m') (h' : m'.Retains m'') : m.Retains m'' := by
  refine ⟨fun hf => ?_⟩
  obtain ⟨f', hf', hcarries, hcallees⟩ := h.function hf
  obtain ⟨f'', hf'', hcarries', hcallees'⟩ := h'.function hf'
  exact ⟨f'', hf'', hcarries.trans hcarries', fun c hc => hcallees' c (hcallees c hc)⟩

theorem modifyFunction {g : Function → Function} (hf : m.function? id = some f)
    (hc : f.Carries (g f)) (hcallees : ∀ c ∈ f.callees, c ∈ (g f).callees) :
    m.Retains (m.modifyFunction id g) := by
  refine ⟨fun {id' f'} hf' => ?_⟩
  rw [m.function?_modifyFunction]
  split
  · next heq =>
    subst heq
    cases hf.symm.trans hf'
    exact ⟨g f, by rw [hf]; rfl, hc, hcallees⟩
  · exact ⟨f', hf', .refl f', fun _ h => h⟩

theorem addFunction (m : Module) (f : Function) : m.Retains (m.addFunction f) := by
  refine ⟨fun {id f'} hf => ⟨f', ?_, .refl f', fun _ h => h⟩⟩
  rw [m.function?_addFunction_of_ne (ne_nextFunction hf)]
  exact hf

theorem addExport (hf : m.function? id = some f) (hdef : f.isDeclaration = false) (name : String) :
    m.Retains (m.addExport name id) :=
  ⟨(modifyFunction (g := fun f => { f with linkage := .exported }) hf
    ⟨rfl, hdef.symm, fun hb => hb⟩ fun _ hc => hc).function⟩

end Retains

/-- What is reached goes on being reached, also from other roots that reach the old ones. -/
theorem Reached.lift (hm : m.Retains m') (hr : ∀ r, roots r → m'.Reached roots' r)
    (h : m.Reached roots id) : m'.Reached roots' id := by
  induction h with
  | root h => exact hr _ h
  | call _ hf hc ih =>
    obtain ⟨f', hf', -, hcallees⟩ := hm.function hf
    exact .call ih hf' (hcallees _ hc)

/-- The functions that are exported. -/
def exportedIds (m : Module) : List FunctionId := m.exports.toList.map Prod.snd

/-- A module in which every definition is reached from given functions, and the visible functions are
those that are exported. -/
structure Rooted (m : Module) (roots : FunctionId → Prop) : Prop where
  exported : ∀ {id}, id ∈ m.exportedIds ↔ ∃ f, m.function? id = some f ∧ f.linkage = .exported
  reached : ∀ {id f}, m.function? id = some f → f.isDeclaration = false → m.Reached roots id

namespace Rooted

theorem of_eq (h : m.Rooted roots) (hf : m'.functions = m.functions)
    (he : m'.exports = m.exports) : m'.Rooted roots := by
  have hfunction (id : FunctionId) : m'.function? id = m.function? id := by
    rw [function?, function?, hf]
  refine ⟨fun {id} => ?_, fun {id f} hid hdef => ?_⟩
  · rw [exportedIds, he, hfunction]
    exact h.exported
  · rw [hfunction] at hid
    exact (h.reached hid hdef).lift (.of_functions_eq hf) fun _ hr => .root hr

theorem weaken (h : m.Rooted roots) (hr : ∀ r, roots r → m.Reached roots' r) : m.Rooted roots' :=
  ⟨h.exported, fun hf hdef => (h.reached hf hdef).lift (.refl m) hr⟩

/-- A function that is not visible, and is a root if it is a definition. -/
theorem addFunction (h : m.Rooted roots) (hl : f.linkage ≠ .exported)
    (hr : ∀ r, roots r → roots' r) (hnew : f.isDeclaration = false → roots' m.nextFunction) :
    (m.addFunction f).Rooted roots' := by
  refine ⟨fun {id} => ?_, fun {id k} hk hdef => ?_⟩
  · refine (show id ∈ (m.addFunction f).exportedIds ↔ id ∈ m.exportedIds from Iff.rfl).trans
      (h.exported.trans ?_)
    constructor
    · rintro ⟨k, hk, hvisible⟩
      exact ⟨k, by rwa [m.function?_addFunction_of_ne (ne_nextFunction hk)], hvisible⟩
    · rintro ⟨k, hk, hvisible⟩
      by_cases hid : id = m.nextFunction
      · rw [hid, m.function?_addFunction_next] at hk
        cases hk
        exact (hl hvisible).elim
      · rw [m.function?_addFunction_of_ne hid] at hk
        exact ⟨k, hk, hvisible⟩
  · by_cases hid : id = m.nextFunction
    · subst hid
      rw [m.function?_addFunction_next] at hk
      cases hk
      exact .root (hnew hdef)
    · rw [m.function?_addFunction_of_ne hid] at hk
      exact (h.reached hk hdef).lift (.addFunction m f) fun _ h => .root (hr _ h)

/-- The calls that are added to a definition are no longer needed as roots. -/
theorem calling {g : Function → Function} {added : List FunctionId}
    (h : m.Rooted fun r => roots r ∨ r ∈ added) (hc : UnitState.Calling m id f g added)
    (hl : (g f).linkage = f.linkage) (hown : m.Reached roots id) :
    (m.modifyFunction id g).Rooted roots := by
  have hm : m.Retains (m.modifyFunction id g) := .modifyFunction hc.function hc.carries
    fun c hmem => hc.callees.mem_iff.mpr (List.mem_append_right _ hmem)
  have hg : (m.modifyFunction id g).function? id = some (g f) := by
    rw [m.function?_modifyFunction, if_pos rfl, hc.function]
    rfl
  have hroots (r : FunctionId) (hr : roots r ∨ r ∈ added) :
      (m.modifyFunction id g).Reached roots r := by
    rcases hr with hr | hr
    · exact .root hr
    · refine .call (hown.lift hm fun _ h => .root h) hg ?_
      exact hc.callees.mem_iff.mpr (List.mem_append_left _ hr)
  refine ⟨fun {id'} => ?_, fun {id' k} hk hdef => ?_⟩
  · refine (show id' ∈ (m.modifyFunction id g).exportedIds ↔ id' ∈ m.exportedIds from
      Iff.rfl).trans (h.exported.trans ?_)
    rw [m.function?_modifyFunction]
    split
    · next heq =>
      subst heq
      rw [hc.function]
      constructor
      · rintro ⟨k, hk, hvisible⟩
        cases hk
        exact ⟨g f, rfl, hl.trans hvisible⟩
      · rintro ⟨k, hk, hvisible⟩
        cases hk
        exact ⟨f, rfl, hl.symm.trans hvisible⟩
    · exact Iff.rfl
  · rw [m.function?_modifyFunction] at hk
    split at hk
    · next heq =>
      subst heq
      exact hown.lift hm fun _ h => .root h
    · exact (h.reached hk hdef).lift hm hroots

/-- A definition becomes visible when it is exported. -/
theorem addExport (h : m.Rooted roots) (name : String) (hf : m.function? id = some f)
    (hdef : f.isDeclaration = false) : (m.addExport name id).Rooted roots := by
  have hm : m.Retains (m.addExport name id) := .addExport hf hdef name
  refine ⟨fun {id'} => ?_, fun {id' k} hk hkdef => ?_⟩
  · have hexports : (m.addExport name id).exportedIds = m.exportedIds ++ [id] := by
      show (m.exports.push (name, id)).toList.map Prod.snd = _
      rw [Array.toList_push, List.map_append]
      rfl
    rw [hexports, List.mem_append, List.mem_singleton, m.function?_addExport]
    split
    · next heq =>
      subst heq
      exact iff_of_true (.inr rfl) ⟨_, by rw [hf]; rfl, rfl⟩
    · next hne => exact (or_iff_left (Ne.symm hne)).trans h.exported
  · rw [m.function?_addExport] at hk
    have hold : m.Reached roots id' := by
      split at hk
      · next heq =>
        subst heq
        exact h.reached hf hdef
      · exact h.reached hk hkdef
    exact hold.lift hm fun _ hr => .root hr

end Rooted

end Ssa.Module

/-! ## Worlds -/

/-- A state inside a definition of a rooted unit. -/
structure RootedWorld where
  state : GenState
  roots : FunctionId → Prop
  orderly : state.unit.Orderly
  rooted : state.unit.module.Rooted roots
  current : ∃ f, state.unit.module.function? state.frame.function = some f ∧
    f.isDeclaration = false ∧ f.HasBlock state.frame.block

/-- A unit that has grown without exports. -/
structure UnitState.GrowsTo (u u' : UnitState) : Prop where
  retains : u.module.Retains u'.module
  exports : u'.module.exports = u.module.exports

theorem UnitState.GrowsTo.refl (u : UnitState) : u.GrowsTo u := ⟨.refl _, rfl⟩

theorem UnitState.GrowsTo.trans {u u' u'' : UnitState} (h : u.GrowsTo u') (h' : u'.GrowsTo u'') :
    u.GrowsTo u'' := ⟨h.retains.trans h'.retains, h'.exports.trans h.exports⟩

namespace RootedWorld

variable {w x : RootedWorld}

instance : CodeWorld RootedWorld where
  state := RootedWorld.state
  le w x := x.state.frame.function = w.state.frame.function ∧ x.roots = w.roots ∧
    w.state.unit.GrowsTo x.state.unit
  le_refl w := ⟨rfl, rfl, .refl _⟩
  le_trans _ _ _ h h' := ⟨h'.1.trans h.1, h'.2.1.trans h.2.1, h.2.2.trans h'.2.2⟩

/-- The function under construction has a block. -/
def HasBlock (w : RootedWorld) (b : BlockId) : Prop :=
  ∃ f, w.state.unit.module.function? w.state.frame.function = some f ∧ f.HasBlock b

def outlook : Outlook RootedWorld where
  value := Eq
  attributes := Eq
  storage _ := True
  block := HasBlock
  declared w id _ := ∃ f, w.state.unit.module.function? id = some f
  struct _ _ _ := True
  attributes_none := rfl
  storage_of := fun _ => trivial
  block_mono := by
    rintro w x b ⟨hfn, -, hgrows⟩ ⟨f, hf, hb⟩
    obtain ⟨f', hf', hc, -⟩ := hgrows.retains.function hf
    exact ⟨f', by rwa [← hfn] at hf', hc.blocks hb⟩
  declared_mono := by
    rintro w x id _ ⟨-, -, hgrows⟩ ⟨f, hf⟩
    obtain ⟨f', hf', -⟩ := hgrows.retains.function hf
    exact ⟨f', hf'⟩
  struct_mono := fun _ => id

/-- Nothing is said about runs that fail. -/
def Fails (_ : RootedWorld) (_ : Failure) (_ : GenState) : Prop := True

/-- The function under construction is a definition, so it is reached. -/
theorem reached (w : RootedWorld) :
    w.state.unit.module.Reached w.roots w.state.frame.function := by
  obtain ⟨f, hf, hdef, -⟩ := w.current
  exact w.rooted.reached hf hdef

/-- The world of a unit that has grown, at the same place. -/
theorem exists_at {u : UnitState} (ho : u.Orderly) (hr : u.module.Rooted w.roots)
    (hu : w.state.unit.GrowsTo u) :
    ∃ x : RootedWorld, CodeWorld.state x = ⟨u, w.state.frame⟩ ∧ w ≤ x := by
  obtain ⟨f, hf, hdef, hb⟩ := w.current
  obtain ⟨f', hf', hc, -⟩ := hu.retains.function hf
  exact ⟨⟨⟨u, w.state.frame⟩, w.roots, ho, hr, f', hf', hc.kind.trans hdef, hc.blocks hb⟩, rfl, rfl,
    rfl, hu⟩

/-- The world at another place in the function. -/
theorem exists_with {fr : Frame} (hf : fr.function = w.state.frame.function)
    (hb : w.HasBlock fr.block) :
    ∃ x : RootedWorld, CodeWorld.state x = ⟨w.state.unit, fr⟩ ∧ w ≤ x := by
  obtain ⟨f, hcur, hdef, -⟩ := w.current
  obtain ⟨f', hf', hb'⟩ := hb
  cases hcur.symm.trans hf'
  exact ⟨⟨⟨w.state.unit, fr⟩, w.roots, w.orderly, w.rooted, f, by rwa [hf], hdef, hb'⟩, rfl, hf, rfl,
    .refl _⟩

/-- A change of the function under construction, in a unit whose only other roots are called by it. -/
theorem exists_calling {u : UnitState} {f : Function} {g : Function → Function}
    {added : List FunctionId} (ho : u.Orderly) (hu : w.state.unit.GrowsTo u)
    (hr : u.module.Rooted fun r => w.roots r ∨ r ∈ added)
    (hc : UnitState.Calling u.module w.state.frame.function f g added)
    (hl : (g f).linkage = f.linkage) (flag : Bool) :
    ∃ x : RootedWorld, CodeWorld.state x =
      ⟨u.calling w.state.frame.function g flag, w.state.frame⟩ ∧ w ≤ x := by
  have hown := w.reached.lift hu.retains fun _ h => .root h
  have hm : u.module.Retains (u.module.modifyFunction w.state.frame.function g) :=
    .modifyFunction hc.function hc.carries fun c hmem =>
      hc.callees.mem_iff.mpr (List.mem_append_right _ hmem)
  exact exists_at (ho.calling hc flag) (hr.calling hc hl hown) (hu.trans ⟨hm, rfl⟩)

/-- An instruction that calls a function that may have been generated for it. -/
theorem call_leads {env : Env} {u : UnitState} {callee : FunctionId} {k : Function}
    (ho : u.Orderly) (hu : w.state.unit.GrowsTo u)
    (hr : u.module.Rooted fun r => w.roots r ∨ r = callee) (hk : u.module.function? callee = some k)
    (flag : Bool) (t : Ty) (args : List ValueId) (attrs : Attributes) :
    Gen.Leads env ⟨{ u with gcRequired := flag }, w.state.frame⟩
      (Gen.emit (.call callee t args attrs))
      (fun a s => ∃ x : RootedWorld, CodeWorld.state x = s ∧ w ≤ x ∧ ∃ a', a = a')
      fun _ _ => True := by
  obtain ⟨f₀, hf₀, -, hb₀⟩ := w.current
  obtain ⟨f, hf, hcarries, -⟩ := hu.retains.function hf₀
  have hc := UnitState.Calling.of_call ho hf (hcarries.blocks hb₀) hk args attrs t
  have hr' : u.module.Rooted fun r => w.roots r ∨ r ∈ [callee] :=
    hr.weaken fun r h => .root (h.imp_right List.mem_singleton.mpr)
  obtain ⟨x, hx, hwx⟩ := exists_calling ho hu hr' hc rfl flag
  exact .emit ⟨x, hx, hwx, _, rfl⟩ trivial

end RootedWorld

/-! ## Runs -/

namespace Gen

variable {env : Env} {s : GenState} {roots : FunctionId → Prop}

/-- A unit that has grown, with a function whose definition may have to be reached from it. -/
structure Requested (roots : FunctionId → Prop) (s : GenState) (id : FunctionId) (s' : GenState) :
    Prop where
  frame : s'.frame = s.frame
  orderly : s'.unit.Orderly
  grows : s.unit.GrowsTo s'.unit
  rooted : s'.unit.module.Rooted fun r => roots r ∨ r = id
  function : ∃ f, s'.unit.module.function? id = some f

theorem declareExternal_rooted (ho : s.unit.Orderly) (hr : s.unit.module.Rooted roots)
    (name : String) (params : List Ty) (ret : Ty) (attrs : Attributes) (variadic : Bool)
    (span : Span) :
    Leads env s (declareExternal name params ret attrs variadic span)
      (fun id s' => Requested roots s id s' ∧ s'.unit.module.Rooted roots) fun _ _ => True := by
  have weaken {m : Module} {id : FunctionId} (h : m.Rooted roots) :
      m.Rooted fun r => roots r ∨ r = id := h.weaken fun _ hr => .root (.inl hr)
  refine .read rfl ?_
  rcases ho.tidy.declare_cases name params ret attrs variadic with
    ⟨f, hd, hl, hkind, -⟩ | ⟨i, f, hd, hf, -, -⟩ | ⟨c, hd⟩
  · have hlinkage : f.linkage ≠ .exported := by
      intro h
      rw [Function.isDeclaration, h] at hkind
      cases hkind
    have hrooted : (s.unit.module.addFunction f).Rooted roots :=
      hr.addFunction hlinkage (fun _ h => h) fun h => by cases hkind.symm.trans h
    rw [hd]
    exact .of_ok rfl ⟨⟨rfl, ho.declare hl hkind, ⟨.addFunction _ f, rfl⟩, weaken hrooted, f,
      s.unit.module.function?_addFunction_next f⟩, hrooted⟩
  · rw [hd]
    exact .of_ok rfl ⟨⟨rfl, ho, .refl _, weaken hr, f, hf⟩, hr⟩
  · rw [hd]
    exact .of_error rfl trivial

variable {generate : Generate} {sp : Specialization} {span : Span}

/-- A request that has been served: with a definition under the symbol, if there is a body. -/
theorem specialize_rooted (ho : s.unit.Orderly) (hr : s.unit.module.Rooted roots)
    (hbody : ∀ decl body, env.program.function? sp.func = some decl → decl.body = some body →
      ∀ w : RootedWorld, Tracks env RootedWorld.Fails Unit w (fun _ => Eq)
        (generateBody generate sp body span) (generateBody generate sp body span)) :
    Leads env s (specialize generate sp span)
      (fun id s' => Requested roots s id s' ∧ ∀ decl, env.program.function? sp.func = some decl →
        decl.body.isSome = true → ∃ f, s'.unit.module.function? id = some f ∧
          f.isDeclaration = false ∧ f.name = sp.symbol env.program) fun _ _ => True := by
  refine specialize_leads (fun _ _ _ => trivial) ?_ ?_ ?_
  · intro decl params ret hdecl hnone _ _
    refine (declareExternal_rooted ho hr _ _ _ _ _ _).mono ?_ fun _ _ h => h
    rintro id s' ⟨hrequested, -⟩
    refine ⟨hrequested, fun decl' hdecl' hsome => ?_⟩
    cases hdecl.symm.trans hdecl'
    rw [hnone] at hsome
    cases hsome
  · intro decl body params i hdecl hb _ hget
    obtain ⟨f, hf, hkind, hname⟩ := ho.table.mp hget
    exact ⟨⟨rfl, ⟨ho.tidy, ho.table, ho.generated⟩, ⟨.refl _, rfl⟩,
      hr.weaken fun _ h => .root (.inl h), f, hf⟩, fun _ _ _ => ⟨f, hf, hkind, hname⟩⟩
  · intro decl body params ret hdecl hb _ _ hnone
    let f : Function := (Function.shell (sp.symbol env.program) params ret .internal).addBlock "entry"
    have hf := s.unit.module.function?_addFunction_next f
    let w : RootedWorld := {
      state := s.started sp (sp.symbol env.program) params ret
      roots := fun r => roots r ∨ r = s.unit.module.nextFunction
      orderly := ho.started sp params ret hnone
      rooted := hr.addFunction (fun h => by cases h) (fun _ => .inl) fun _ => .inr rfl
      current := ⟨f, hf, rfl, (Function.hasBlock_addBlock "entry").mpr (.inr rfl)⟩ }
    refine (hbody decl body hdecl hb w).mono ?_ fun _ _ h => h
    rintro _ s' ⟨x, rfl, ⟨-, hroots, hgrows⟩, -⟩
    obtain ⟨k, hk, hc, -⟩ := hgrows.retains.function hf
    have hstarted : s.unit.GrowsTo w.state.unit := ⟨.addFunction _ f, rfl⟩
    have hrooted := x.rooted
    rw [hroots] at hrooted
    exact ⟨⟨rfl, x.orderly, hstarted.trans hgrows, hrooted, k, hk⟩, fun _ _ _ => ⟨k, hk, hc.kind, hc.name⟩⟩

/-- Every step keeps the unit rooted. -/
theorem rooted_trackable (env : Env) : Trackable RootedWorld.outlook env RootedWorld.Fails where
  value := fun _ => rfl
  attributes := fun _ => rfl
  storage := fun _ => trivial
  later := fun _ _ => trivial
  struct := fun _ _ => trivial
  misplaced := fun _ => trivial
  refused := fun _ _ _ => trivial
  quiet := fun {w s} hq => by
    have ha := hq.toAlike
    obtain ⟨x, hx, hwx⟩ := RootedWorld.exists_at (w := w) (w.orderly.of_alike ha)
      (w.rooted.of_eq ha.functions hq.exports) ⟨.of_functions_eq ha.functions, hq.exports⟩
    have hs : s = ⟨s.unit, w.state.frame⟩ := congrArg (GenState.mk s.unit) ha.frame
    exact ⟨x, hx.trans hs.symm, hwx⟩
  edit := fun {w g} hg => by
    obtain ⟨f, hf, -, hb⟩ := w.current
    exact RootedWorld.exists_calling w.orderly (.refl _) (w.rooted.weaken fun _ h => .root (.inl h))
      (.of_edit w.orderly hf hb hg) (hg.preserving.linkage f) w.state.unit.gcRequired
  opened := fun {w _ _} hx _ => by
    obtain ⟨f, hf, -⟩ := w.current
    exact GenState.hasBlock_mapFunction_addBlock hf hx
  moved := fun hb => RootedWorld.exists_with rfl hb
  modifyFrame := fun {w g} hg => by
    obtain ⟨hfn, hblock, -⟩ := hg (CodeWorld.state w).frame
    obtain ⟨f, hf, -, hb⟩ := w.current
    exact RootedWorld.exists_with hfn ⟨f, hf, by rwa [hblock]⟩
  callSupport := fun {w} f args span => by
    refine (declareExternal_rooted w.orderly w.rooted _ _ _ _ _ _).bind ?_
    rintro callee s - ⟨⟨hframe, ho, hgrows, hr, k, hk⟩, -⟩
    obtain ⟨u, fr⟩ := s
    cases hframe
    cases hall : f.allocates with
    | true =>
      refine Leads.bind (Q := fun _ s' => s' = ⟨{ u with gcRequired := true }, w.state.frame⟩)
        (.of_ok rfl rfl) ?_
      rintro _ _ - rfl
      exact RootedWorld.call_leads ho hgrows hr hk true _ _ _
    | false => exact RootedWorld.call_leads ho hgrows hr hk u.gcRequired _ _ _
  declareMath := fun {w symbol} arity attrs span hsym => by
    refine (declareExternal_rooted w.orderly w.rooted _ _ _ _ _ _).mono ?_ fun _ _ h => h
    rintro id s ⟨⟨hframe, ho, hgrows, -, hk⟩, hr⟩
    obtain ⟨x, hx, hwx⟩ := RootedWorld.exists_at ho hr hgrows
    have hs : CodeWorld.state x = s := hx.trans (congrArg (GenState.mk s.unit) hframe).symm
    refine ⟨x, hs, hwx, id, ?_⟩
    show ∃ k, (CodeWorld.state x).unit.module.function? id = some k
    rw [hs]
    exact hk
  callFunction := fun {w i j} args attrs hi => by
    obtain ⟨k, hk⟩ := hi
    exact .read rfl (RootedWorld.call_leads w.orderly (.refl _)
      (w.rooted.weaken fun _ h => .root (.inl h)) hk w.state.unit.gcRequired _ args attrs)

/-- Whatever is generated is reached from the function that it is generated for. -/
theorem rooted_nodes (env : Env) (depth : Nat) (n : Node) :
    Coupling.Couples RootedWorld.outlook (fun t => t) (Gen.generate depth) (Gen.generate depth)
      (Tracks env RootedWorld.Fails) n := by
  refine (rooted_trackable env).nodes (fun _ => trivial) ?_ depth n
  intro depth hn w signature sp decl typeArgs argCount span args _ _ _ _
  refine (specialize_rooted w.orderly w.rooted fun _ body _ _ w' =>
    (rooted_trackable env).body (hn body) (fun _ _ d _ => hn d) span).bind ?_
  rintro callee s - ⟨⟨hframe, ho, hgrows, hr, k, hk⟩, -⟩
  obtain ⟨u, fr⟩ := s
  cases hframe
  exact .read rfl (RootedWorld.call_leads ho hgrows hr hk u.gcRequired _ args .none)

end Gen

/-! ## Compilers -/

namespace Compiler

open Gen

/-- An export of an entry point: its name with the definition that has the symbol of its
specialization. -/
def Exports (p : Program) (m : Module) (func : FuncId) (e : String × FunctionId) : Prop :=
  ∃ decl sp f, Enters p func decl sp ∧ e.1 = decl.name ∧ m.function? e.2 = some f ∧
    f.isDeclaration = false ∧ f.name = sp.symbol p

variable {p : Program} {m m' : Module} {func : FuncId} {e : String × FunctionId}

theorem Exports.retained (h : Exports p m func e) (hm : m.Retains m') : Exports p m' func e := by
  obtain ⟨decl, sp, f, henters, hname, hf, hdef, hsymbol⟩ := h
  obtain ⟨f', hf', hc, -⟩ := hm.function hf
  exact ⟨decl, sp, f', henters, hname, hf', hc.kind.trans hdef, hc.name.trans hsymbol⟩

/-- What is known of a compiler that has compiled a list of entry points. -/
structure Exported (done : List FuncId) (c : Compiler) : Prop where
  orderly : c.unit.Orderly
  rooted : c.unit.module.Rooted (· ∈ c.unit.module.exportedIds)
  exports : List.Forall₂ (Exports c.env.program c.unit.module)
    (done.filter c.env.program.compiles) c.unit.module.exports.toList

variable {c c' : Compiler} {done : List FuncId} {depth : Nat}

theorem Exported.new (p : Program) (config : Config) (registry : Registry) :
    Exported [] (new p config registry) := by
  refine ⟨orderly_new p config registry, ⟨fun {id} => ?_, fun hf => by cases hf⟩, .nil⟩
  constructor
  · intro h
    cases h
  · rintro ⟨f, hf, -⟩
    cases hf

/-- The definition of an entry point is exported when it is there. -/
theorem entryWithin_exports (h : c.Exported done) (hfunc : c.env.program.compiles func = true) :
    Leads c.env c.start (entryWithin (fun _ => depth) func)
      (fun _ s => Exported (done ++ [func]) { c with unit := s.unit }) fun _ _ => True := by
  refine entryWithin_leads (fun _ _ _ => trivial) fun decl sp hsp => ?_
  have hfound : c.env.program.function? sp.func = some decl := by
    rw [(Specialization.resolve_ok hsp.resolve).func_eq, hsp.function]
  refine (specialize_rooted h.orderly h.rooted fun _ body _ _ w =>
    (rooted_trackable c.env).body (rooted_nodes c.env _ body)
      (fun _ _ d _ => rooted_nodes c.env _ d) decl.span).mono ?_ fun _ _ h => h
  rintro id s ⟨⟨-, ho, hgrows, hr, -⟩, hserved⟩
  obtain ⟨f, hf, hdef, hsymbol⟩ := hserved decl hfound hsp.hasBody
  let m := s.unit.module.addExport decl.name id
  have hm : s.unit.module.Retains m := .addExport hf hdef decl.name
  have hexports : m.exports.toList = c.unit.module.exports.toList ++ [(decl.name, id)] := by
    show (s.unit.module.exports.push (decl.name, id)).toList = _
    rw [Array.toList_push, hgrows.exports]
    rfl
  refine ⟨ho.exporting decl.name hf hdef, ?_, ?_⟩
  · refine (hr.addExport decl.name hf hdef).weaken fun r hr => .root ?_
    show r ∈ m.exports.toList.map Prod.snd
    rw [hexports, List.map_append, List.mem_append]
    exact hr.imp_right fun hr => by rw [hr]; exact List.mem_singleton_self id
  · show List.Forall₂ (Exports c.env.program m) _ m.exports.toList
    rw [List.filter_append, List.filter_cons_of_pos hfunc, List.filter_nil, hexports]
    have hold := h.exports.imp fun _ _ he => he.retained (hgrows.retains.trans hm)
    obtain ⟨f', hf', hc, -⟩ := hm.function hf
    exact List.rel_append hold (.cons ⟨decl, sp, f', hsp, rfl, hf', hc.kind.trans hdef,
      hc.name.trans hsymbol⟩ .nil)

theorem compileAllAt_exports (h : c.Exported done) {funcs : List FuncId}
    (hok : c.compileAllAt depth funcs = .ok c') :
    c'.Exported (done ++ funcs) ∧ c'.env = c.env := by
  refine compileAllAt_induction (P := fun done c₁ => c₁.Exported done ∧ c₁.env = c.env)
    ?_ ?_ done ⟨h, rfl⟩ hok
  · rintro c₁ done func decl ⟨h₁, henv⟩ hdecl hg
    have hpassed : ¬ c₁.env.program.compiles func = true := by
      rw [Program.compiles, hdecl, Option.any_some, hg]
      exact Bool.false_ne_true
    refine ⟨{ h₁ with exports := ?_ }, henv⟩
    rw [List.filter_append, List.filter_cons_of_neg hpassed, List.filter_nil, List.append_nil]
    exact h₁.exports
  · rintro c₁ c₂ done func decl id ⟨h₁, henv⟩ hdecl hg hrun
    have hfunc : c₁.env.program.compiles func = true := by
      rw [Program.compiles, hdecl, Option.any_some, hg]
      rfl
    rcases compileEntryAt_leads (entryWithin_exports h₁ hfunc) with
      ⟨_, s, heq, hs⟩ | ⟨_, _, heq, -⟩
    · cases hrun.symm.trans heq
      exact ⟨hs, henv⟩
    · cases hrun.symm.trans heq

end Compiler

/-! ## Results -/

/-- What a compiled module exports, and that there is nothing else in it. The exports are the entry
points that are not generic, in order and under their names, each with the definition that has the
symbol of its specialization. Exactly the exports are visible, and other definitions are internal.
Calls lead from the exports to every definition, and all calls are of functions of the module. -/
theorem compile_exports {p : Program} {config : Config} {out : Output}
    (h : compile p config = .ok out) :
    List.Forall₂ (Compiler.Exports p out.module) (p.entryPoints.filter p.compiles)
      out.module.exports.toList ∧
    (∀ id f, out.module.function? id = some f →
      (f.linkage = .exported ↔ ∃ name, (name, id) ∈ out.module.exports) ∧
      (f.isDeclaration = false → f.linkage ≠ .exported → f.linkage = .internal)) ∧
    (∀ id f, out.module.function? id = some f → f.isDeclaration = false →
      out.module.Reached (fun r => ∃ name, (name, r) ∈ out.module.exports) id) ∧
    ∀ id f, out.module.function? id = some f → ∀ call ∈ f.calls,
      ∃ callee, out.module.function? call.1 = some callee := by
  obtain ⟨c, hc, hout⟩ := except_bind_ok h
  cases hout
  have hc := (Compiler.compileAll_eq _ _).symm.trans hc
  obtain ⟨⟨ho, hr, hexports⟩, henv⟩ := Compiler.compileAllAt_exports (.new p config .standard) hc
  have hids {id : FunctionId} : id ∈ c.unit.module.exportedIds ↔
      ∃ name, (name, id) ∈ c.unit.module.exports := by
    simp [Module.exportedIds]
  rw [henv] at hexports
  refine ⟨hexports, fun id f hf => ⟨?_, fun hdef hl => ?_⟩, fun id f hf hdef => ?_,
    fun id f hf call hcall => ?_⟩
  · rw [← hids, hr.exported]
    constructor
    · exact fun hl => ⟨f, hf, hl⟩
    · rintro ⟨f', hf', hl⟩
      cases hf.symm.trans hf'
      exact hl
  · rw [Function.isDeclaration, decide_eq_false_iff_not] at hdef
    cases hlinkage : f.linkage with
    | internal => rfl
    | exported => exact (hl hlinkage).elim
    | external => exact (hdef hlinkage).elim
  · exact (hr.reached hf hdef).lift (.refl _) fun _ hr => .root (hids.mp hr)
  · exact ho.tidy.callees (Module.mem_callees.mpr ⟨id, f, hf, List.mem_map.mpr ⟨call, hcall, rfl⟩⟩)

/-- A generic function and a caller, both entry points: `function same<T>(x: T): T { return x; }` and
`function main(): int { return same<int>(1); }`. -/
def callingProgram : Program :=
  let node (t : StaticType) (form : Form Node) : Node := .mk ⟨0⟩ .dummy t form
  let returning (value : Node) : Node := node .void (.block [node .void (.ret (some value))])
  let call : Node := node .int
    (.call (node .void (.identifier "same")) [node .int (.numericLiteral "1")] (some ⟨⟨0⟩, [.int]⟩))
  { functions := #[
      { name := "same", typeParams := ["T"], params := [{ name := "x", type := .param "T" }]
        ret := .param "T", body := some (returning (node (.param "T") (.identifier "x"))) },
      { name := "main", ret := .int, body := some (returning call) }]
    entryPoints := [⟨0⟩, ⟨1⟩] }

theorem compile_callingProgram :
    ((compile callingProgram {}).map fun out => (out.module.exports.toList,
      out.module.functions.toList.map fun f => (f.name, f.isDeclaration))).toOption =
        some ([("main", ⟨0⟩)], [("_brisk_4main", false), ("_brisk_4same$int$$int", false)]) := by
  decide +kernel

/-- The generic entry point is not exported, but its specialization is called. -/
theorem compile_exports_calling : ∃ out, compile callingProgram {} = .ok out ∧
    List.Forall₂ (Compiler.Exports callingProgram out.module) [⟨1⟩] [("main", ⟨0⟩)] ∧
    (∃ f, out.module.function? ⟨1⟩ = some f ∧ f.linkage = .internal) ∧
    out.module.Reached (fun r => ∃ name, (name, r) ∈ out.module.exports) ⟨1⟩ := by
  obtain ⟨out, hc, heq⟩ := except_map_ok compile_callingProgram
  have hexports : out.module.exports.toList = [("main", ⟨0⟩)] := congrArg Prod.fst heq
  have hfunctions : out.module.functions.toList.map (fun f => (f.name, f.isDeclaration)) =
      [("_brisk_4main", false), ("_brisk_4same$int$$int", false)] := congrArg Prod.snd heq
  obtain ⟨hentries, hlinkage, hreached, -⟩ := compile_exports hc
  have hsame : ∃ f, out.module.function? ⟨1⟩ = some f ∧ f.isDeclaration = false := by
    have hone := congrArg (·[1]?) hfunctions
    simp only [List.getElem?_map] at hone
    obtain ⟨f, hf, hkind⟩ := Option.map_eq_some_iff.mp hone
    exact ⟨f, by rwa [Array.getElem?_toList] at hf, congrArg Prod.snd hkind⟩
  obtain ⟨f, hf, hdef⟩ := hsame
  refine ⟨out, hc, ?_, ⟨f, hf, (hlinkage _ f hf).2 hdef fun hvisible => ?_⟩, hreached _ f hf hdef⟩
  · rwa [hexports] at hentries
  · obtain ⟨name, hmem⟩ := (hlinkage _ f hf).1.mp hvisible
    rw [← Array.mem_toList_iff, hexports, List.mem_singleton] at hmem
    cases hmem

end TypedLowering
