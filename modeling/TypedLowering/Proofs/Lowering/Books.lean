import TypedLowering.Proofs.Coupling.Single
import TypedLowering.Proofs.Lowering.History

/-!
The books of a unit: how many definitions there are, how often they are called and exported, and
whether something is called that allocates; and how each change of a unit enters in them.
-/
namespace TypedLowering
set_option autoImplicit false
open Ssa

/-! ## Modules -/

namespace Ssa.Module

variable {m m' m'' : Module} {id : FunctionId} {f : Function} {g : Function → Function}
  {added : List FunctionId}

/-- Functions stay, with their names and blocks. -/
structure Carries (m m' : Module) : Prop where
  function : ∀ {id f}, m.function? id = some f → ∃ f', m'.function? id = some f' ∧ f.Carries f'

namespace Carries

theorem of_functions_eq (h : m'.functions = m.functions) : m.Carries m' :=
  ⟨fun {_ f} hf => ⟨f, by rwa [function?, h], .refl f⟩⟩

theorem refl (m : Module) : m.Carries m := of_functions_eq rfl

theorem trans (h : m.Carries m') (h' : m'.Carries m'') : m.Carries m'' := by
  refine ⟨fun hf => ?_⟩
  obtain ⟨f', hf', hc⟩ := h.function hf
  obtain ⟨f'', hf'', hc'⟩ := h'.function hf'
  exact ⟨f'', hf'', hc.trans hc'⟩

theorem modifyFunction (hf : m.function? id = some f) (hc : f.Carries (g f)) :
    m.Carries (m.modifyFunction id g) := by
  refine ⟨fun {id' f'} hf' => ?_⟩
  rw [m.function?_modifyFunction]
  split
  · next heq =>
    subst heq
    cases hf.symm.trans hf'
    exact ⟨g f, by rw [hf]; rfl, hc⟩
  · exact ⟨f', hf', .refl f'⟩

theorem addFunction (m : Module) (f : Function) : m.Carries (m.addFunction f) := by
  refine ⟨fun {id f'} hf => ⟨f', ?_, .refl f'⟩⟩
  rw [m.function?_addFunction_of_ne (ne_nextFunction hf)]
  exact hf

end Carries

/-- Blocks list values that are there, calls go to functions that are there, and names are bound to
functions that have them. -/
structure Tidy (m : Module) : Prop where
  bodies : ∀ {id f}, m.function? id = some f → f.Tidy
  callees : ∀ {c}, c ∈ m.callees → ∃ f, m.function? c = some f
  symbols : ∀ {name id}, m.lookup name = some id → ∃ f, m.function? id = some f ∧ f.name = name

namespace Tidy

theorem of_eq (h : m.Tidy) (hf : m'.functions = m.functions) (hs : m'.symbols = m.symbols) :
    m'.Tidy := by
  have hfunction (id : FunctionId) : m'.function? id = m.function? id := by
    rw [function?, function?, hf]
  refine ⟨fun {id f} hid => h.bodies ((hfunction id).symm.trans hid), fun {c} hc => ?_,
    fun {name id} hn => ?_⟩
  · rw [hfunction]
    refine h.callees ?_
    rwa [Module.callees, hf] at hc
  · rw [hfunction]
    refine h.symbols ?_
    rwa [lookup, hs] at hn

theorem modifyFunction (h : m.Tidy) (hf : m.function? id = some f) (hc : f.Carries (g f))
    (ht : (g f).Tidy) (hp : (g f).callees.Perm (added ++ f.callees))
    (ha : ∀ c ∈ added, ∃ k, m.function? c = some k) : (m.modifyFunction id g).Tidy := by
  have hm := Carries.modifyFunction hf hc
  refine ⟨fun {id' f'} hf' => ?_, fun {c} hmem => ?_, fun {name id'} hn => ?_⟩
  · rw [m.function?_modifyFunction] at hf'
    split at hf'
    · next heq =>
      subst heq
      rw [hf] at hf'
      cases hf'
      exact ht
    · exact h.bodies hf'
  · have hold : ∃ k, m.function? c = some k := by
      rcases List.mem_append.mp ((callees_modifyFunction hf hp).mem_iff.mp hmem) with hc | hc
      · exact ha c hc
      · exact h.callees hc
    obtain ⟨k, hk⟩ := hold
    obtain ⟨k', hk', -⟩ := hm.function hk
    exact ⟨k', hk'⟩
  · obtain ⟨k, hk, hname⟩ := h.symbols hn
    obtain ⟨k', hk', hc'⟩ := hm.function hk
    exact ⟨k', hk', hc'.name.trans hname⟩

theorem addFunction (h : m.Tidy) (hl : f.listed = []) : (m.addFunction f).Tidy := by
  have hm := Carries.addFunction m f
  refine ⟨fun {id f'} hf' => ?_, fun {c} hc => ?_, fun {name id} hn => ?_⟩
  · by_cases hid : id = m.nextFunction
    · rw [hid, m.function?_addFunction_next] at hf'
      cases hf'
      exact Function.tidy_of_listed_eq_nil hl
    · rw [m.function?_addFunction_of_ne hid] at hf'
      exact h.bodies hf'
  · rw [callees_addFunction (Function.callees_of_listed_eq_nil hl)] at hc
    obtain ⟨k, hk⟩ := h.callees hc
    obtain ⟨k', hk', -⟩ := hm.function hk
    exact ⟨k', hk'⟩
  · by_cases hname : f.name = name
    · subst hname
      cases (m.lookup_addFunction_self f).symm.trans hn
      exact ⟨f, m.function?_addFunction_next f, rfl⟩
    · have hold : m.lookup name = some id := by
        rwa [lookup, Module.addFunction, Dict.get?_insert_of_ne _ _ hname] at hn
      obtain ⟨k, hk, hkn⟩ := h.symbols hold
      obtain ⟨k', hk', hc'⟩ := hm.function hk
      exact ⟨k', hk', hc'.name.trans hkn⟩

/-- What declaring a function comes to. -/
theorem declare_cases (h : m.Tidy) (name : String) (params : List Ty) (ret : Ty) (attrs : Attributes)
    (variadic : Bool) :
    (∃ f, m.declare name params ret attrs variadic = .ok (m.nextFunction, m.addFunction f) ∧
      f.listed = [] ∧ f.isDeclaration = true ∧ f.name = name) ∨
    (∃ id f, m.declare name params ret attrs variadic = .ok (id, m) ∧ m.function? id = some f ∧
      f.isDeclaration = true ∧ f.name = name) ∨
    ∃ c, m.declare name params ret attrs variadic = .error c := by
  unfold declare
  cases hl : m.lookup name with
  | none => exact .inl ⟨_, rfl, rfl, rfl, rfl⟩
  | some id =>
    obtain ⟨f, hf, hname⟩ := h.symbols hl
    dsimp only
    rw [hf]
    dsimp only
    split
    · next hsame =>
      simp only [Bool.and_eq_true] at hsame
      exact .inr (.inl ⟨id, f, rfl, hf, hsame.1.1.1, hname⟩)
    · exact .inr (.inr ⟨_, rfl⟩)

end Tidy

/-! ### Calls of definitions -/

/-- Whether a number is that of a definition. -/
def isDefinition (m : Module) (id : FunctionId) : Bool :=
  (m.function? id).any fun f => !f.isDeclaration

/-- The number of calls of definitions. -/
def definitionCalls (m : Module) : Nat := m.callees.countP m.isDefinition

theorem isDefinition_eq (hf : m.function? id = some f) : m.isDefinition id = !f.isDeclaration := by
  rw [isDefinition, hf]
  rfl

theorem Carries.isDefinition (h : m.Carries m') (hf : m.function? id = some f) :
    m'.isDefinition id = m.isDefinition id := by
  obtain ⟨f', hf', hc⟩ := h.function hf
  rw [isDefinition_eq hf', isDefinition_eq hf, hc.kind]

/-- Calls that are added are counted. -/
theorem definitionCalls_of_perm (h : m.Tidy) (hm : m.Carries m')
    (ha : ∀ c ∈ added, ∃ k, m.function? c = some k) (hp : m'.callees.Perm (added ++ m.callees)) :
    m'.definitionCalls = added.countP m.isDefinition + m.definitionCalls := by
  unfold definitionCalls
  rw [hp.countP_eq, List.countP_append]
  congr 1
  · refine List.countP_congr fun c hc => ?_
    obtain ⟨k, hk⟩ := ha c hc
    rw [hm.isDefinition hk]
  · refine List.countP_congr fun c hc => ?_
    obtain ⟨k, hk⟩ := h.callees hc
    rw [hm.isDefinition hk]

theorem mem_definitions : (id, f) ∈ m.definitions ↔
    m.function? id = some f ∧ f.isDeclaration = false := by
  obtain ⟨i⟩ := id
  unfold definitions numbered function?
  rw [List.mem_filter, List.mem_map, Bool.not_eq_true']
  refine and_congr_left fun _ => ?_
  rw [← Array.getElem?_toList]
  constructor
  · rintro ⟨⟨f', i'⟩, hmem, heq⟩
    cases heq
    exact List.mem_zipIdx_iff_getElem?.mp hmem
  · exact fun h => ⟨(f, i), List.mem_zipIdx_iff_getElem?.mpr h, rfl⟩

theorem nodup_definitions (m : Module) : m.definitions.Nodup := by
  refine List.Nodup.filter _ ?_
  refine List.Nodup.of_map Prod.fst ?_
  have hids : m.numbered.map Prod.fst =
      (List.range' 0 m.functions.toList.length).map fun i => (⟨i⟩ : FunctionId) := by
    rw [← List.zipIdx_map_snd 0, numbered, List.map_map, List.map_map]
    rfl
  rw [hids]
  exact List.Nodup.map (fun _ _ h => congrArg Handle.index h) List.nodup_range'

theorem length_definitions (m : Module) :
    m.definitions.length = m.functions.toList.countP fun f => !f.isDeclaration := by
  have hz (k : Nat) (l : List Function) : (l.zipIdx k).countP (fun q => !q.1.isDeclaration) =
      l.countP fun f => !f.isDeclaration := by
    conv_rhs => rw [← List.zipIdx_map_fst k l, List.countP_map]
    rfl
  unfold definitions numbered
  rw [← List.countP_eq_length_filter, List.countP_map, ← hz 0]
  rfl

theorem length_definitions_addFunction (m : Module) (f : Function) :
    (m.addFunction f).definitions.length =
      m.definitions.length + (!f.isDeclaration).toNat := by
  rw [length_definitions, length_definitions, Module.addFunction, Array.toList_push,
    List.countP_append, List.countP_singleton]
  cases f.isDeclaration <;> rfl

theorem length_definitions_modifyFunction (hf : m.function? id = some f)
    (hk : (g f).isDeclaration = f.isDeclaration) :
    (m.modifyFunction id g).definitions.length = m.definitions.length := by
  rw [length_definitions, length_definitions, Module.modifyFunction, Array.toList_modify]
  rw [function?, ← Array.getElem?_toList] at hf
  generalize m.functions.toList = l at hf
  generalize id.index = i at hf
  induction l generalizing i with
  | nil => cases hf
  | cons a l ih =>
    cases i with
    | zero =>
      cases hf
      rw [List.modify_zero_cons, List.countP_cons, List.countP_cons, hk]
    | succ i =>
      rw [List.modify_succ_cons, List.countP_cons, List.countP_cons, ih i hf]

end Ssa.Module

/-! ## Allocators -/

namespace SupportFunction

/-- What the names of support functions that allocate start with. -/
def allocatorStems : List String :=
  ["brisk_object_alloc", "brisk_box_", "brisk_array_new_", "brisk_array_from_buffer_",
    "brisk_array_with_length_", "brisk_array_push_"]

/-- Whether a name starts like that of a support function that allocates. -/
def namesAllocator (name : String) : Bool :=
  allocatorStems.any fun stem => stem.toList.isPrefixOf name.toList

theorem namesAllocator_symbol (f : SupportFunction) : namesAllocator f.symbol = f.allocates := by
  unfold namesAllocator
  cases f with
  | objectAlloc => decide
  | mathRandom => decide
  | box t => cases t <;> decide
  | _ =>
    unfold symbol
    rw [String.toList_append]
    rfl

theorem namesAllocator_math : ∀ s ∈ MathMember.symbols, namesAllocator s = false := by decide

theorem namesAllocator_head (x : String) : namesAllocator (Mangling.head ++ x) = false := by
  simp [namesAllocator, allocatorStems, Mangling.head, String.toList_append, List.isPrefixOf]

end SupportFunction

/-- A function with the name of a support function that allocates. -/
def Ssa.Function.IsAllocator (f : Function) : Prop :=
  ∃ support : SupportFunction, support.allocates = true ∧ f.name = support.symbol

/-- A module that contains a call of a support function that allocates. -/
def Ssa.Module.CallsAllocator (m : Module) : Prop :=
  ∃ c ∈ m.callees, ∃ f, m.function? c = some f ∧ f.IsAllocator

/-- A program without a function that is defined elsewhere under the name of a support function that
allocates. -/
def Program.SparesCollector (p : Program) : Prop :=
  ∀ decl ∈ p.functions, decl.body = none →
    ∀ support : SupportFunction, support.allocates = true → decl.name ≠ support.symbol

theorem Ssa.Function.not_isAllocator {f : Function}
    (h : SupportFunction.namesAllocator f.name = false) : ¬ f.IsAllocator := by
  rintro ⟨support, ha, hname⟩
  rw [hname, SupportFunction.namesAllocator_symbol, ha] at h
  cases h

theorem Specialization.namesAllocator_symbol (s : Specialization) (p : Program) :
    SupportFunction.namesAllocator (s.symbol p) = false := by
  unfold Specialization.symbol Mangling.symbol
  rw [String.append_assoc, String.append_assoc, String.append_assoc]
  exact SupportFunction.namesAllocator_head _

theorem Ssa.Function.Carries.isAllocator {f g : Function} (h : f.Carries g) :
    g.IsAllocator ↔ f.IsAllocator := by
  unfold IsAllocator
  rw [h.name]

namespace Ssa.Module

variable {m m' : Module} {added : List FunctionId}

theorem Carries.isAllocator (h : m.Carries m') {c : FunctionId} {k : Function}
    (hk : m.function? c = some k) :
    (∃ f, m'.function? c = some f ∧ f.IsAllocator) ↔ k.IsAllocator := by
  obtain ⟨k', hk', hc⟩ := h.function hk
  constructor
  · rintro ⟨f, hf, ha⟩
    cases hk'.symm.trans hf
    exact hc.isAllocator.mp ha
  · exact fun ha => ⟨k', hk', hc.isAllocator.mpr ha⟩

/-- Calls of allocators are those that were there and those that are added. -/
theorem callsAllocator_of_perm (h : m.Tidy) (hm : m.Carries m')
    (ha : ∀ c ∈ added, ∃ k, m.function? c = some k) (hp : m'.callees.Perm (added ++ m.callees)) :
    m'.CallsAllocator ↔
      (∃ c ∈ added, ∃ k, m.function? c = some k ∧ k.IsAllocator) ∨ m.CallsAllocator := by
  have same {c : FunctionId} (hc : ∃ k, m.function? c = some k) :
      (∃ f, m'.function? c = some f ∧ f.IsAllocator) ↔
        ∃ f, m.function? c = some f ∧ f.IsAllocator := by
    obtain ⟨k, hk⟩ := hc
    rw [hm.isAllocator hk, (Carries.refl m).isAllocator hk]
  constructor
  · rintro ⟨c, hc, hf⟩
    rcases List.mem_append.mp (hp.mem_iff.mp hc) with hc | hc
    · exact .inl ⟨c, hc, (same (ha c hc)).mp hf⟩
    · exact .inr ⟨c, hc, (same (h.callees hc)).mp hf⟩
  · rintro (⟨c, hc, hf⟩ | ⟨c, hc, hf⟩)
    · exact ⟨c, hp.mem_iff.mpr (List.mem_append_left _ hc), (same (ha c hc)).mpr hf⟩
    · exact ⟨c, hp.mem_iff.mpr (List.mem_append_right _ hc), (same (h.callees hc)).mpr hf⟩

end Ssa.Module

/-! ## Units -/

namespace UnitState

variable {P : Prop} {u u' u'' : UnitState} {id : FunctionId} {f : Function}
  {g : Function → Function} {added : List FunctionId}

/-- The table leads to the definitions by their names, and they have all been counted. -/
structure Orderly (u : UnitState) : Prop where
  tidy : u.module.Tidy
  table : ∀ {symbol id}, u.specializations.get? symbol = some id ↔
    ∃ f, u.module.function? id = some f ∧ f.isDeclaration = false ∧ f.name = symbol
  generated : u.generated = u.module.definitions.length

/-- The flag says whether there is a call that allocates, as far as `P` is granted. -/
def Accurate (P : Prop) (u : UnitState) : Prop :=
  P → (u.gcRequired = true ↔ u.module.CallsAllocator)

/-- Requests for definitions that have been served. -/
def served (u : UnitState) : Nat := u.generated + u.cacheHits

/-- What definitions are requested for: calls and exports. -/
def uses (u : UnitState) : Nat := u.module.definitionCalls + u.module.exports.size

/-- A unit after another, with a number of requests served whose use is still to come. -/
structure Follows (u u' : UnitState) (ahead : Nat) : Prop where
  carries : u.module.Carries u'.module
  balance : u'.served + u.uses = u.served + u'.uses + ahead
  raised : u.gcRequired = true → u'.gcRequired = true

/-- A unit that a failed run from another leaves. Only a run that breaks off in the middle of a call
leaves the flag ahead of the calls. -/
structure Survives (P : Prop) (u : UnitState) (e : Failure) (u' : UnitState) : Prop where
  orderly : u'.Orderly
  raised : u.gcRequired = true → u'.gcRequired = true
  accurate : e ≠ .misplaced → u'.Accurate P

theorem Follows.refl (u : UnitState) : u.Follows u 0 := ⟨.refl _, rfl, id⟩

theorem Follows.trans {a b : Nat} (h : u.Follows u' a) (h' : u'.Follows u'' b) :
    u.Follows u'' (a + b) := by
  refine ⟨h.carries.trans h'.carries, ?_, fun hr => h'.raised (h.raised hr)⟩
  have := h.balance
  have := h'.balance
  omega

theorem Follows.survives {a : Nat} (h : u.Follows u' a) {e : Failure} (h' : u'.Survives P e u'') :
    u.Survives P e u'' :=
  ⟨h'.orderly, fun hr => h'.raised (h.raised hr), h'.accurate⟩

/-! ### Steps -/

/-- A unit in which functions are as they were. -/
theorem Orderly.of_alike {s s' : GenState} (h : s.unit.Orderly) (ha : s.Alike s') :
    s'.unit.Orderly := by
  refine ⟨h.tidy.of_eq ha.functions ha.symbols, fun {symbol id} => ?_, ?_⟩
  · rw [ha.specializations, ha.function?]
    exact h.table
  · rw [ha.generated, h.generated, Module.length_definitions, Module.length_definitions,
      ha.functions]

theorem Accurate.of_quiet {s s' : GenState} (h : s.unit.Accurate P) {p : Program} (hq : s.Quiet p s') :
    s'.unit.Accurate P := by
  intro hp
  rw [hq.collector, h hp, Module.CallsAllocator, Module.CallsAllocator, Module.callees,
    Module.callees, hq.toAlike.functions]
  simp only [hq.toAlike.function?]

theorem Follows.of_quiet {s s' : GenState} {p : Program} (hq : s.Quiet p s') : s.unit.Follows s'.unit 0 := by
  refine ⟨.of_functions_eq hq.toAlike.functions, ?_, fun hr => hq.collector.trans hr⟩
  have hcalls : s'.unit.module.definitionCalls = s.unit.module.definitionCalls := by
    unfold Module.definitionCalls Module.callees
    rw [hq.toAlike.functions]
    refine List.countP_congr fun c _ => ?_
    rw [Module.isDefinition, Module.isDefinition, hq.toAlike.function?]
  rw [served, served, uses, uses, hq.toAlike.generated, hq.toAlike.cacheHits, hcalls, hq.exports]
  omega

/-- A change of a function that keeps its name and adds calls of functions that are there. -/
structure Calling (m : Module) (id : FunctionId) (f : Function) (g : Function → Function)
    (added : List FunctionId) : Prop where
  function : m.function? id = some f
  carries : f.Carries (g f)
  tidy : (g f).Tidy
  callees : (g f).callees.Perm (added ++ f.callees)
  known : ∀ c ∈ added, ∃ k, m.function? c = some k

theorem Calling.of_edit (h : u.Orderly) (hf : u.module.function? id = some f) {b : BlockId}
    (hb : f.HasBlock b) (hg : Function.Edit b g) : Calling u.module id f g [] where
  function := hf
  carries := hg.carries f
  tidy := hg.tidy (h.tidy.bodies hf) hb
  callees := hg.callees (h.tidy.bodies hf) hb
  known := fun _ hc => by cases hc

theorem Calling.of_call (h : u.Orderly) (hf : u.module.function? id = some f) {b : BlockId}
    (hb : f.HasBlock b) {callee : FunctionId} {k : Function} (hk : u.module.function? callee = some k)
    (args : List ValueId) (attrs : Attributes) (t : Ty) :
    Calling u.module id f (fun f => f.append b ⟨.call callee args attrs, t⟩) [callee] where
  function := hf
  carries := f.carries_append b _
  tidy := (h.tidy.bodies hf).append hb _
  callees := Function.callees_append (h.tidy.bodies hf) hb _
  known := by
    intro c hc
    rw [List.mem_singleton.mp hc]
    exact ⟨k, hk⟩

theorem Orderly.modifyFunction (h : u.Orderly) (hc : Calling u.module id f g added)
    (hm : u'.module = u.module.modifyFunction id g)
    (hs : u'.specializations = u.specializations) (hg : u'.generated = u.generated) :
    u'.Orderly := by
  refine ⟨?_, fun {symbol id'} => ?_, ?_⟩
  · rw [hm]
    exact h.tidy.modifyFunction hc.function hc.carries hc.tidy hc.callees hc.known
  · rw [hs, h.table, hm, Module.function?_modifyFunction]
    split
    · next heq =>
      subst heq
      rw [hc.function]
      have hname := hc.carries.name
      have hkind := hc.carries.kind
      constructor
      · rintro ⟨k, hk, hd, hn⟩
        cases hk
        exact ⟨g f, rfl, hkind.trans hd, hname.trans hn⟩
      · rintro ⟨k, hk, hd, hn⟩
        cases hk
        exact ⟨f, rfl, hkind.symm.trans hd, hname.symm.trans hn⟩
    · exact Iff.rfl
  · rw [hg, h.generated, hm, Module.length_definitions_modifyFunction hc.function hc.carries.kind]

theorem Calling.definitionCalls (h : u.Orderly) (hc : Calling u.module id f g added) :
    (u.module.modifyFunction id g).definitionCalls =
      added.countP u.module.isDefinition + u.module.definitionCalls :=
  Module.definitionCalls_of_perm h.tidy (.modifyFunction hc.function hc.carries) hc.known
    (Module.callees_modifyFunction hc.function hc.callees)

theorem Calling.callsAllocator (h : u.Orderly) (hc : Calling u.module id f g added) :
    (u.module.modifyFunction id g).CallsAllocator ↔
      (∃ c ∈ added, ∃ k, u.module.function? c = some k ∧ k.IsAllocator) ∨
        u.module.CallsAllocator :=
  Module.callsAllocator_of_perm h.tidy (.modifyFunction hc.function hc.carries) hc.known
    (Module.callees_modifyFunction hc.function hc.callees)

/-! ### New functions -/

theorem definitionCalls_addFunction (h : u.Orderly) (hl : f.listed = []) :
    (u.module.addFunction f).definitionCalls = u.module.definitionCalls := by
  have hp := Module.callees_addFunction (m := u.module) (Function.callees_of_listed_eq_nil hl)
  have hadded : (u.module.addFunction f).callees.Perm ([] ++ u.module.callees) := by
    rw [hp]
    exact .refl _
  have hcalls := Module.definitionCalls_of_perm h.tidy (.addFunction u.module f)
    (fun _ hc => by cases hc) hadded
  rwa [List.countP_nil, Nat.zero_add] at hcalls

theorem callsAllocator_addFunction (h : u.Orderly) (hl : f.listed = []) :
    (u.module.addFunction f).CallsAllocator ↔ u.module.CallsAllocator := by
  have hp := Module.callees_addFunction (m := u.module) (Function.callees_of_listed_eq_nil hl)
  have hadded : (u.module.addFunction f).callees.Perm ([] ++ u.module.callees) := by
    rw [hp]
    exact .refl _
  have hcalls := Module.callsAllocator_of_perm h.tidy (.addFunction u.module f)
    (fun _ hc => by cases hc) hadded
  simpa using hcalls

/-- The unit with one more declaration. -/
def declare (u : UnitState) (f : Function) : UnitState :=
  { u with module := u.module.addFunction f }

theorem Orderly.declare (h : u.Orderly) (hl : f.listed = []) (hd : f.isDeclaration = true) :
    (u.declare f).Orderly := by
  refine ⟨h.tidy.addFunction hl, fun {symbol id} => ?_, ?_⟩
  · show u.specializations.get? symbol = some id ↔ ∃ k, (u.module.addFunction f).function? id =
      some k ∧ k.isDeclaration = false ∧ k.name = symbol
    rw [h.table]
    constructor
    · rintro ⟨k, hk, hrest⟩
      exact ⟨k, by rwa [u.module.function?_addFunction_of_ne (Module.ne_nextFunction hk)], hrest⟩
    · rintro ⟨k, hk, hkind, hname⟩
      by_cases hid : id = u.module.nextFunction
      · rw [hid, u.module.function?_addFunction_next] at hk
        cases hk
        cases hd.symm.trans hkind
      · rw [u.module.function?_addFunction_of_ne hid] at hk
        exact ⟨k, hk, hkind, hname⟩
  · show u.generated = (u.module.addFunction f).definitions.length
    rw [Module.length_definitions_addFunction, h.generated, hd]
    rfl

theorem Accurate.declare (h : u.Accurate P) (ho : u.Orderly) (hl : f.listed = []) :
    (u.declare f).Accurate P :=
  fun hp => (h hp).trans (callsAllocator_addFunction ho hl).symm

theorem Follows.declare (h : u.Orderly) (hl : f.listed = []) : u.Follows (u.declare f) 0 := by
  refine ⟨.addFunction u.module f, ?_, id⟩
  have hcalls := definitionCalls_addFunction h hl
  show u.served + u.uses = u.served +
    ((u.module.addFunction f).definitionCalls + u.module.exports.size) + 0
  rw [hcalls]
  rfl

theorem Orderly.started {s : GenState} (h : s.unit.Orderly) (sp : Specialization) {symbol : String}
    (params : List Ty) (ret : Ty) (hnone : s.unit.specializations.get? symbol = none) :
    (s.started sp symbol params ret).unit.Orderly := by
  let f : Function := (Function.shell symbol params ret .internal).addBlock "entry"
  have hl : f.listed = [] := Function.listed_addBlock _ _
  refine ⟨h.tidy.addFunction hl, fun {name id} => ?_, ?_⟩
  · show (s.unit.specializations.insert symbol s.unit.module.nextFunction).get? name = some id ↔
      ∃ k, (s.unit.module.addFunction f).function? id = some k ∧ k.isDeclaration = false ∧
        k.name = name
    by_cases hid : id = s.unit.module.nextFunction
    · rw [hid, s.unit.module.function?_addFunction_next]
      constructor
      · intro hget
        by_cases hname : symbol = name
        · exact ⟨f, rfl, rfl, hname⟩
        · -- the table leads to functions that are there
          rw [Dict.get?_insert_of_ne _ _ hname] at hget
          obtain ⟨k, hk, -⟩ := h.table.mp hget
          exact (Module.ne_nextFunction hk rfl).elim
      · rintro ⟨k, hk, -, hname⟩
        cases hk
        rw [← hname]
        exact Dict.get?_insert_self _ _ _
    · rw [s.unit.module.function?_addFunction_of_ne hid]
      by_cases hname : symbol = name
      · subst hname
        rw [Dict.get?_insert_self]
        constructor
        · intro heq
          exact (hid (Option.some.inj heq).symm).elim
        · intro hk
          cases hnone.symm.trans (h.table.mpr hk)
      · rw [Dict.get?_insert_of_ne _ _ hname]
        exact h.table
  · show s.unit.generated + 1 = (s.unit.module.addFunction f).definitions.length
    rw [Module.length_definitions_addFunction, h.generated]
    rfl

theorem Accurate.started {s : GenState} (h : s.unit.Accurate P) (ho : s.unit.Orderly)
    (sp : Specialization) (symbol : String) (params : List Ty) (ret : Ty) :
    (s.started sp symbol params ret).unit.Accurate P :=
  fun hp => (h hp).trans (callsAllocator_addFunction ho (Function.listed_addBlock _ _)).symm

theorem Follows.started {s : GenState} (h : s.unit.Orderly) (sp : Specialization) (symbol : String)
    (params : List Ty) (ret : Ty) : s.unit.Follows (s.started sp symbol params ret).unit 1 := by
  let f : Function := (Function.shell symbol params ret .internal).addBlock "entry"
  refine ⟨.addFunction s.unit.module f, ?_, id⟩
  have hcalls := definitionCalls_addFunction (f := f) h (Function.listed_addBlock _ _)
  show s.unit.generated + 1 + s.unit.cacheHits + s.unit.uses = s.unit.served +
    ((s.unit.module.addFunction f).definitionCalls + s.unit.module.exports.size) + 1
  rw [hcalls, served, uses]
  omega

/-! ### Calls -/

/-- A unit in which functions have been changed, with the flag at some value. -/
def calling (u : UnitState) (id : FunctionId) (g : Function → Function) (flag : Bool) : UnitState :=
  { u with module := u.module.modifyFunction id g, gcRequired := flag }

theorem Orderly.calling (h : u.Orderly) (hc : Calling u.module id f g added) (flag : Bool) :
    (u.calling id g flag).Orderly :=
  h.modifyFunction hc rfl rfl rfl

/-- Calls of definitions make up for the requests that were served for them. -/
theorem Follows.calling (h : u.Follows u' (added.countP u'.module.isDefinition)) (ho : u'.Orderly)
    (hc : Calling u'.module id f g added) {flag : Bool} (hflag : u'.gcRequired = true → flag = true) :
    u.Follows (u'.calling id g flag) 0 := by
  refine ⟨h.carries.trans (.modifyFunction hc.function hc.carries), ?_,
    fun hr => hflag (h.raised hr)⟩
  have hb := h.balance
  have hcalls := hc.definitionCalls ho
  show u'.served + u.uses = u.served +
    ((u'.module.modifyFunction id g).definitionCalls + u'.module.exports.size) + 0
  rw [hcalls]
  rw [uses.eq_def u'] at hb
  omega

/-- A call of a function that allocates nothing. -/
theorem Accurate.calling (h : u.Accurate P) (ho : u.Orderly) (hc : Calling u.module id f g added)
    (ha : ∀ c ∈ added, ∀ k, u.module.function? c = some k → P → ¬ k.IsAllocator) :
    (u.calling id g u.gcRequired).Accurate P := by
  intro hp
  refine (h hp).trans ((hc.callsAllocator ho).trans (or_iff_right ?_)).symm
  rintro ⟨c, hmem, k, hk, hka⟩
  exact ha c hmem k hk hp hka

/-- A call that allocates, with the flag raised. -/
theorem Accurate.allocating (ho : u.Orderly) (hc : Calling u.module id f g added)
    (ha : ∃ c ∈ added, ∃ k, u.module.function? c = some k ∧ k.IsAllocator) :
    (u.calling id g true).Accurate P :=
  fun _ => iff_of_true rfl ((hc.callsAllocator ho).mpr (.inl ha))

end UnitState

end TypedLowering
