import TypedLowering.Proofs.Lowering.Ledger
import TypedLowering.Proofs.Typing.World

/-!
Units that say nothing but what the program determines: functions are found under their names, names
of definitions are reserved for them, and descriptors are those of the classes. Every run keeps a unit
regular and adds to it. The numbers of functions and structs depend on the order of the requests;
nothing in the headings and layouts does.
-/
namespace TypedLowering
set_option autoImplicit false
open Ssa

/-! ## Reserved names -/

/-- Whether a name starts like the symbols of specializations. -/
def Mangling.isReserved (name : String) : Bool := head.toList.isPrefixOf name.toList

theorem Specialization.isReserved_symbol (s : Specialization) (p : Program) :
    Mangling.isReserved (s.symbol p) = true := by
  unfold symbol Mangling.symbol Mangling.isReserved
  rw [String.append_assoc, String.append_assoc, String.append_assoc, String.toList_append,
    List.isPrefixOf_iff_prefix]
  exact List.prefix_append _ _

theorem SupportFunction.isReserved_symbol (f : SupportFunction) :
    Mangling.isReserved f.symbol = false := by
  unfold Mangling.isReserved
  cases f with
  | objectAlloc => decide
  | mathRandom => decide
  | box t => cases t <;> decide
  | _ =>
    unfold symbol
    rw [String.toList_append]
    rfl

theorem MathMember.isReserved_symbols : ∀ s ∈ symbols, Mangling.isReserved s = false := by decide

/-- A program without a function that is defined elsewhere under a reserved name. -/
def Program.SparesSymbols (p : Program) : Prop :=
  ∀ decl ∈ p.functions, decl.body = none → Mangling.isReserved decl.name = false

/-! ## Declarations -/

namespace Ssa.Module

variable {m : Module} {name : String} {params : List Ty} {ret : Ty} {attrs : Attributes}
  {variadic : Bool} {id : FunctionId} {f : Function}

theorem declare_new (params : List Ty) (ret : Ty) (attrs : Attributes) (variadic : Bool)
    (hl : m.lookup name = none) :
    ∃ f, m.declare name params ret attrs variadic = .ok (m.nextFunction, m.addFunction f) ∧
      f.heading = (name, params, ret, variadic, true) ∧ f.blocks = #[] := by
  refine ⟨{ Function.shell name params ret .external with attrs, variadic }, ?_, rfl, rfl⟩
  unfold declare
  rw [hl]

theorem declare_known (hl : m.lookup name = some id) (hf : m.function? id = some f)
    (hh : f.heading = (name, params, ret, variadic, true)) :
    m.declare name params ret attrs variadic = .ok (id, m) := by
  simp only [Function.heading, Prod.mk.injEq] at hh
  obtain ⟨-, hp, hr, hv, hd⟩ := hh
  unfold declare
  rw [hl]
  dsimp only
  rw [hf]
  simp [hp, hr, hv, hd]

theorem declare_conflict (hl : m.lookup name = some id) (hf : m.function? id = some f)
    (hname : f.name = name) (hh : f.heading ≠ (name, params, ret, variadic, true)) :
    m.declare name params ret attrs variadic = .error {
      name
      existing := signatureText f.params f.ret f.variadic
      requested := signatureText params ret variadic } := by
  unfold declare
  rw [hl]
  dsimp only
  rw [hf]
  dsimp only
  split
  · next hsame =>
    simp only [Bool.and_eq_true, decide_eq_true_eq] at hsame
    obtain ⟨⟨⟨hd, hp⟩, hr⟩, hv⟩ := hsame
    exact (hh (by rw [Function.heading, hname, hp, hr, hv, hd])).elim
  · rfl

end Ssa.Module

/-! ## Units that grow -/

namespace UnitState

variable {u u' u'' : UnitState}

/-- What is in a unit stays in it, and requests are added. -/
structure Precedes (u u' : UnitState) : Prop where
  embeds : u.module.Embeds u'.module
  table : ∀ {symbol id}, u.specializations.get? symbol = some id →
    u'.specializations.get? symbol = some id
  raised : u.gcRequired = true → u'.gcRequired = true
  requests : ∃ later, u'.requests = later ++ u.requests

/-- Nothing has been requested or declared. -/
structure Level (u u' : UnitState) : Prop where
  embeds : u.module.Embeds u'.module
  functions : ∀ {id f'}, u'.module.function? id = some f' →
    ∃ f, u.module.function? id = some f ∧ f.heading = f'.heading
  symbols : u'.module.symbols = u.module.symbols
  specializations : u'.specializations = u.specializations
  requests : u'.requests = u.requests
  collector : u'.gcRequired = u.gcRequired

theorem Precedes.refl (u : UnitState) : u.Precedes u := ⟨.refl _, id, id, [], rfl⟩

theorem Precedes.trans (h : u.Precedes u') (h' : u'.Precedes u'') : u.Precedes u'' := by
  obtain ⟨l, hl⟩ := h.requests
  obtain ⟨l', hl'⟩ := h'.requests
  exact ⟨h.embeds.trans h'.embeds, fun hi => h'.table (h.table hi), fun hr => h'.raised (h.raised hr),
    l' ++ l, by rw [hl', hl, List.append_assoc]⟩

theorem Level.precedes (h : u.Level u') : u.Precedes u' :=
  ⟨h.embeds, fun hi => by rwa [h.specializations], fun hr => by rwa [h.collector], [], h.requests⟩

theorem Level.of_quiet {p : Program} {s s' : GenState} (h : s.Quiet p s') : s.unit.Level s'.unit where
  embeds := by
    cases h with
    | same => exact .refl _
    | header => exact .addStruct _ _ _
    | literal t data => exact .addGlobal _ _ _ _
    | abandoned d => exact .addStruct _ _ _
    | descriptor => exact .addStruct _ _ _
  functions := fun {id f} hf => ⟨f, (h.toAlike.function? id).symm.trans hf, rfl⟩
  symbols := h.toAlike.symbols
  specializations := h.toAlike.specializations
  requests := h.toAlike.requests
  collector := h.collector

theorem Level.mapFunction (s : GenState) {g : Function → Function}
    (hg : Function.Preserving g) : s.unit.Level (s.mapFunction g).unit where
  embeds := .modifyFunction _ _ hg
  functions := fun {id f} hf => by
    have hm : (s.mapFunction g).unit.module.function? id = if s.frame.function = id then
        (s.unit.module.function? id).map g else s.unit.module.function? id :=
      Module.function?_modifyFunction _ _ _ _
    rw [hm] at hf
    split at hf
    · obtain ⟨k, hk, rfl⟩ := Option.map_eq_some_iff.mp hf
      exact ⟨k, hk, (hg.heading k).symm⟩
    · exact ⟨f, hf, rfl⟩
  symbols := rfl
  specializations := rfl
  requests := rfl
  collector := rfl

end UnitState

/-! ## Regular units -/

/-- What a program says of a class: its declaration, its fields and its methods. -/
def Program.membersOf (p : Program) (cls : ClassId) :
    Except Failure (ClassDecl × List FieldInfo × List (String × FuncId)) :=
  match p.class? cls with
  | none => .error .dangling
  | some decl => do
    let fields ← decl.fieldInfos
    let methods ← p.methodNames decl
    return (decl, fields, methods)

theorem Program.membersOf_eq {p : Program} {cls : ClassId} {decl : ClassDecl} {fields : List FieldInfo}
    {methods : List (String × FuncId)} (hdecl : p.class? cls = some decl)
    (hfields : decl.fieldInfos = .ok fields) (hmethods : p.methodNames decl = .ok methods) :
    p.membersOf cls = .ok (decl, fields, methods) := by
  unfold membersOf
  rw [hdecl]
  dsimp only
  rw [hfields, hmethods]
  rfl

/-- A descriptor of a class, whose struct is in the module. -/
def ClassDescriptor.Describes (p : Program) (m : Module) (cls : ClassId) (d : ClassDescriptor) : Prop :=
  ∃ decl fields methods, p.membersOf cls = .ok (decl, fields, methods) ∧
    d = decl.descriptor cls fields methods d.layout ∧ m.struct? d.layout = some (decl.struct fields)

namespace ClassDescriptor.Describes

variable {p : Program} {m m' : Module} {cls : ClassId} {d d' : ClassDescriptor}

/-- A descriptor stays one as long as the structs stay. -/
theorem of_structs (h : d.Describes p m cls)
    (hm : ∀ {i sd}, m.struct? i = some sd → m'.struct? i = some sd) : d.Describes p m' cls := by
  obtain ⟨decl, fields, methods, hmembers, heq, hs⟩ := h
  exact ⟨decl, fields, methods, hmembers, heq, hm hs⟩

theorem mono (hm : m.Embeds m') (h : d.Describes p m cls) : d.Describes p m' cls :=
  h.of_structs hm.struct

/-- Descriptors of one class differ in the numbers of their structs only. -/
theorem alike (h : d.Describes p m cls) (h' : d'.Describes p m' cls) :
    d' = { d with layout := d'.layout } ∧
      ∃ sd, m.struct? d.layout = some sd ∧ m'.struct? d'.layout = some sd := by
  obtain ⟨decl, fields, methods, hmembers, heq, hs⟩ := h
  obtain ⟨decl', fields', methods', hmembers', heq', hs'⟩ := h'
  cases hmembers.symm.trans hmembers'
  refine ⟨?_, decl.struct fields, hs, hs'⟩
  rw [heq, heq']
  rfl

end ClassDescriptor.Describes

/-- A unit that has been generated from a program. -/
structure UnitState.Regular (p : Program) (u : UnitState) : Prop where
  orderly : u.Orderly
  found : ∀ {id f}, u.module.function? id = some f → u.module.lookup f.name = some id
  kind : ∀ {id f}, u.module.function? id = some f → f.isDeclaration = !Mangling.isReserved f.name
  header : ∀ {i}, u.arrayHeader = some i → u.module.struct? i = some headerStruct
  descriptor : ∀ {cls d}, u.descriptors.get? cls = some d → d.Describes p u.module cls
  bare : ∀ {id f}, u.module.function? id = some f → f.isDeclaration = true → f.blocks = #[]
  exported : ∀ {id}, id ∈ u.module.exports.toList.map Prod.snd ↔
    ∃ f, u.module.function? id = some f ∧ f.linkage = .exported

namespace UnitState.Regular

variable {p : Program} {u u' : UnitState} {s s' : GenState}

theorem new (p : Program) (name : String) : { module := { name } : UnitState }.Regular p where
  orderly := Compiler.orderly_new p { moduleName := name } .standard
  found := fun hf => by cases hf
  kind := fun hf => by cases hf
  header := fun hi => by cases hi
  descriptor := fun hd => by cases hd
  bare := fun hf => by cases hf
  exported := iff_of_false (fun h => by cases h) fun ⟨_, hf, _⟩ => by cases hf

/-- Functions of one name are one function. -/
theorem unique (h : u.Regular p) {i j : FunctionId} {f g : Function}
    (hf : u.module.function? i = some f) (hg : u.module.function? j = some g)
    (hname : f.name = g.name) : i = j :=
  Option.some.inj ((h.found hf).symm.trans (hname ▸ h.found hg))

theorem definition (h : u.Regular p) {symbol : String} {id : FunctionId} :
    u.specializations.get? symbol = some id ↔ Mangling.isReserved symbol = true ∧
      ∃ f, u.module.function? id = some f ∧ f.name = symbol := by
  rw [h.orderly.table]
  constructor
  · rintro ⟨f, hf, hd, rfl⟩
    have hk := h.kind hf
    rw [hd, eq_comm, Bool.not_eq_false'] at hk
    exact ⟨hk, f, hf, rfl⟩
  · rintro ⟨hr, f, hf, rfl⟩
    exact ⟨f, hf, by rw [h.kind hf, hr]; rfl, rfl⟩

/-- The name of a definition that is still to be generated is free. -/
theorem lookup_eq_none (h : u.Regular p) {symbol : String} (hr : Mangling.isReserved symbol = true)
    (hnone : u.specializations.get? symbol = none) : u.module.lookup symbol = none := by
  cases hl : u.module.lookup symbol with
  | none => rfl
  | some id =>
    obtain ⟨f, hf, hname⟩ := h.orderly.tidy.symbols hl
    cases hnone.symm.trans (h.definition.mpr ⟨hr, f, hf, hname⟩)

theorem of_level (h : u.Regular p) (hl : u.Level u') (ho : u'.Orderly)
    (hheader : ∀ {i}, u'.arrayHeader = some i → u'.module.struct? i = some headerStruct)
    (hdescriptor : ∀ {cls d}, u'.descriptors.get? cls = some d → d.Describes p u'.module cls)
    (hbare : ∀ {id f}, u'.module.function? id = some f → f.isDeclaration = true → f.blocks = #[])
    (hexported : ∀ {id}, id ∈ u'.module.exports.toList.map Prod.snd ↔
      ∃ f, u'.module.function? id = some f ∧ f.linkage = .exported) : u'.Regular p where
  orderly := ho
  found := fun hf => by
    obtain ⟨f, hold, hh⟩ := hl.functions hf
    rw [Module.lookup, hl.symbols, ← Function.name_of_heading hh]
    exact h.found hold
  kind := fun hf => by
    obtain ⟨f, hold, hh⟩ := hl.functions hf
    have hk := h.kind hold
    rwa [Function.name_of_heading hh, Function.isDeclaration_of_heading hh] at hk
  header := hheader
  descriptor := hdescriptor
  bare := hbare
  exported := hexported

/-- A function that has a block is no declaration. -/
theorem isDeclaration_of_hasBlock (h : u.Regular p) {id : FunctionId} {f : Function} {b : BlockId}
    (hf : u.module.function? id = some f) (hb : f.HasBlock b) : f.isDeclaration = false := by
  rw [Bool.eq_false_iff]
  intro hdecl
  unfold Function.HasBlock at hb
  rw [h.bare hf hdecl] at hb
  cases hb

theorem mapFunction (h : s.unit.Regular p) {g : Function → Function}
    (hg : Function.Preserving g) (ho : (s.mapFunction g).unit.Orderly)
    (hcurrent : ∃ f, s.unit.module.function? s.frame.function = some f ∧ f.HasBlock s.frame.block) :
    (s.mapFunction g).unit.Regular p := by
  have hl := Level.mapFunction s hg
  have hm (id : FunctionId) : (s.mapFunction g).unit.module.function? id =
      if s.frame.function = id then (s.unit.module.function? id).map g
      else s.unit.module.function? id := Module.function?_modifyFunction _ _ _ _
  refine h.of_level hl ho (fun hi => hl.embeds.struct (h.header hi))
    (fun hd => (h.descriptor hd).mono hl.embeds) (fun {id f} hf hdecl => ?_) fun {id} => ?_
  · rw [hm] at hf
    split at hf
    · next heq =>
      subst heq
      obtain ⟨k, hk, hb⟩ := hcurrent
      rw [hk] at hf
      cases hf
      rw [Function.isDeclaration_of_heading (hg.heading k), h.isDeclaration_of_hasBlock hk hb] at hdecl
      cases hdecl
    · exact h.bare hf hdecl
  · rw [hm]
    refine h.exported.trans ?_
    split
    · constructor
      · rintro ⟨f, hf, hlink⟩
        exact ⟨g f, by rw [hf]; rfl, (hg.linkage f).trans hlink⟩
      · rintro ⟨_, hf, hlink⟩
        obtain ⟨f, hold, rfl⟩ := Option.map_eq_some_iff.mp hf
        exact ⟨f, hold, (hg.linkage f).symm.trans hlink⟩
    · rfl

theorem of_quiet (h : s.unit.Regular p) (hq : s.Quiet p s') : s'.unit.Regular p := by
  have hl := Level.of_quiet hq
  have ho := h.orderly.of_alike hq.toAlike
  have same {i : StructId} (hi : s.unit.arrayHeader = some i) :
      s'.unit.module.struct? i = some headerStruct := hl.embeds.struct (h.header hi)
  have kept {cls : ClassId} {d : ClassDescriptor} (hd : s.unit.descriptors.get? cls = some d) :
      d.Describes p s'.unit.module cls := (h.descriptor hd).mono hl.embeds
  have bare {id : FunctionId} {f : Function} (hf : s'.unit.module.function? id = some f) :
      f.isDeclaration = true → f.blocks = #[] := h.bare ((hq.toAlike.function? id).symm.trans hf)
  have exported {id : FunctionId} : id ∈ s'.unit.module.exports.toList.map Prod.snd ↔
      ∃ f, s'.unit.module.function? id = some f ∧ f.linkage = .exported := by
    rw [hq.exports, hq.toAlike.function?]
    exact h.exported
  cases hq with
  | same => exact h
  | header =>
    refine h.of_level hl ho (fun hi => ?_) kept bare exported
    cases hi
    exact Module.struct?_addStruct_next s.unit.module headerStruct.name headerStruct.fields
  | literal t data => exact h.of_level hl ho same kept bare exported
  | abandoned d => exact h.of_level hl ho same kept bare exported
  | @descriptor cls decl fields methods hdecl hfields hmethods =>
    refine h.of_level hl ho same (fun {other d} hd => ?_) bare exported
    by_cases hcls : cls = other
    · subst hcls
      cases (Dict.get?_insert_self _ _ _).symm.trans hd
      exact ⟨decl, fields, methods, Program.membersOf_eq hdecl hfields hmethods, rfl,
        Module.struct?_addStruct_next s.unit.module (decl.struct fields).name
          (decl.struct fields).fields⟩
    · exact kept ((Dict.get?_insert_of_ne _ _ hcls).symm.trans hd)

/-- The unit with a function under a name that is free. -/
theorem addFunction (h : u.Regular p) {f : Function} (hm : u'.module = u.module.addFunction f)
    (hfree : u.module.lookup f.name = none) (hkind : f.isDeclaration = !Mangling.isReserved f.name)
    (hbare : f.isDeclaration = true → f.blocks = #[]) (hlink : f.linkage ≠ .exported)
    (ho : u'.Orderly) (hheader : u'.arrayHeader = u.arrayHeader)
    (hdescriptors : u'.descriptors = u.descriptors) : u'.Regular p := by
  have hl : u.module.Embeds u'.module := by
    rw [hm]
    exact .addFunction _ _
  have hm' {id : FunctionId} {k : Function} (hk : u'.module.function? id = some k) :
      id = u.module.nextFunction ∧ k = f ∨ id ≠ u.module.nextFunction ∧
        u.module.function? id = some k := by
    rw [hm] at hk
    by_cases hid : id = u.module.nextFunction
    · rw [hid, u.module.function?_addFunction_next] at hk
      exact .inl ⟨hid, (Option.some.inj hk).symm⟩
    · exact .inr ⟨hid, (u.module.function?_addFunction_of_ne hid).symm.trans hk⟩
  refine ⟨ho, fun {id k} hk => ?_, fun {id k} hk => ?_, fun hi => hl.struct (h.header (hheader ▸ hi)),
    fun hd => (h.descriptor (hdescriptors ▸ hd)).mono hl, fun {id k} hk => ?_, fun {id} => ?_⟩
  · rw [hm]
    rcases hm' hk with ⟨rfl, rfl⟩ | ⟨-, hold⟩
    · exact u.module.lookup_addFunction_self k
    · have hold := h.found hold
      have hne : f.name ≠ k.name := by
        intro hname
        rw [hname, hold] at hfree
        cases hfree
      rwa [Module.lookup, Module.addFunction, Dict.get?_insert_of_ne _ _ hne]
  · rcases hm' hk with ⟨-, rfl⟩ | ⟨-, hold⟩
    · exact hkind
    · exact h.kind hold
  · rcases hm' hk with ⟨-, rfl⟩ | ⟨-, hold⟩
    · exact hbare
    · exact h.bare hold
  · have hexports : u'.module.exports = u.module.exports := by
      rw [hm]
      rfl
    rw [hexports, h.exported]
    constructor
    · rintro ⟨k, hk, hexp⟩
      exact ⟨k, by rw [hm]; exact getElem?_push_of_some hk, hexp⟩
    · rintro ⟨k, hk, hexp⟩
      rcases hm' hk with ⟨-, rfl⟩ | ⟨-, hold⟩
      · exact (hlink hexp).elim
      · exact ⟨k, hold, hexp⟩

theorem started (h : s.unit.Regular p) (sp : Specialization) (params : List Ty) (ret : Ty)
    (hnone : s.unit.specializations.get? (sp.symbol p) = none) :
    (s.started sp (sp.symbol p) params ret).unit.Regular p := by
  have hr := sp.isReserved_symbol p
  refine h.addFunction rfl (h.lookup_eq_none hr hnone) ?_ (fun hdecl => by cases hdecl)
    (fun hexp => by cases hexp) (h.orderly.started sp params ret hnone) rfl rfl
  show false = !Mangling.isReserved (sp.symbol p)
  rw [hr]
  rfl

end UnitState.Regular

theorem UnitState.Precedes.started (s : GenState) (sp : Specialization) {symbol : String}
    (params : List Ty) (ret : Ty) (hnone : s.unit.specializations.get? symbol = none) :
    s.unit.Precedes (s.started sp symbol params ret).unit where
  embeds := .addFunction _ _
  table := fun {other id} hid => by
    have hne : symbol ≠ other := by
      rintro rfl
      cases hnone.symm.trans hid
    exact (Dict.get?_insert_of_ne _ _ hne).trans hid
  raised := id
  requests := ⟨[_], rfl⟩

theorem UnitState.Precedes.recalled (s : GenState) (sp : Specialization) (id : FunctionId) :
    s.unit.Precedes (s.recalled sp id).unit :=
  ⟨.refl _, fun hi => hi, fun hr => hr, [_], rfl⟩

/-! ## Worlds -/

/-- Nothing has been requested or exported, and of the functions that were there one may have
changed. -/
structure UnitState.Plain (own : FunctionId) (u u' : UnitState) : Prop where
  precedes : u.Precedes u'
  keeps : u.Keeps u' (· = own)
  specializations : u'.specializations = u.specializations
  exports : u'.module.exports = u.module.exports

/-- A condition on a unit in which a function is under construction, which can only be lost by a
request, and on the types that type parameters stand for. -/
structure Condition where
  holds : FunctionId → UnitState → Prop
  keep : ∀ {own u u'}, u.Plain own u' → holds own u → holds own u'
  passes : StaticType → Prop

/-- A condition on types alone. -/
def Condition.passing (T : StaticType → Prop) : Condition := ⟨fun _ _ => True, fun _ => id, T⟩

/-- A state inside a function, in a regular unit. -/
structure RegularWorld (p : Program) (I : Condition) where
  state : GenState
  regular : state.unit.Regular p
  current : ∃ f, state.unit.module.function? state.frame.function = some f ∧
    f.HasBlock state.frame.block
  condition : I.holds state.frame.function state.unit
  passed : ∀ {name t}, state.frame.subst.get? name = some t → I.passes t

namespace RegularWorld

variable {p : Program} {I : Condition} {w x : RegularWorld p I}

instance : CodeWorld (RegularWorld p I) where
  state := RegularWorld.state
  le w x := x.state.frame.function = w.state.frame.function ∧ w.state.unit.Precedes x.state.unit
  le_refl w := ⟨rfl, .refl _⟩
  le_trans _ _ _ h h' := ⟨h'.1.trans h.1, h.2.trans h'.2⟩

/-- The function under construction has a block. -/
def HasBlock (w : RegularWorld p I) (b : BlockId) : Prop :=
  ∃ f, w.state.unit.module.function? w.state.frame.function = some f ∧ f.HasBlock b

/-- The module has a function of the number. -/
def HasFunction (w : RegularWorld p I) (id : FunctionId) : Prop :=
  ∃ f, w.state.unit.module.function? id = some f

theorem HasBlock.later {b : BlockId} (h : w.HasBlock b) (hx : w ≤ x) : x.HasBlock b := by
  obtain ⟨f, hf, hb⟩ := h
  obtain ⟨f', hf', -, hb'⟩ := hx.2.embeds.function hf
  exact ⟨f', by rwa [← hx.1] at hf', hb' hb⟩

theorem HasFunction.later {id : FunctionId} (h : w.HasFunction id) (hx : w ≤ x) :
    x.HasFunction id := by
  obtain ⟨f, hf⟩ := h
  obtain ⟨f', hf', -⟩ := hx.2.embeds.function hf
  exact ⟨f', hf'⟩

def outlook (p : Program) (I : Condition) : Outlook (RegularWorld p I) where
  value := Eq
  attributes := Eq
  storage _ := True
  block := HasBlock
  declared w id _ := w.HasFunction id
  struct _ _ _ := True
  attributes_none := rfl
  storage_of := fun _ => trivial
  block_mono := fun hx h => h.later hx
  declared_mono := fun hx h => h.later hx
  struct_mono := fun _ => id

/-- Runs that fail have only added to the unit. -/
def Fails (w : RegularWorld p I) (_ : Failure) (s : GenState) : Prop :=
  w.state.unit.Precedes s.unit

/-- The world of a unit that follows, at the same place. -/
theorem exists_at {s : GenState} (hr : s.unit.Regular p) (hu : w.state.unit.Precedes s.unit)
    (hI : I.holds w.state.frame.function s.unit) (hframe : s.frame = w.state.frame) :
    ∃ x : RegularWorld p I, CodeWorld.state x = s ∧ w ≤ x := by
  obtain ⟨f, hf, hb⟩ := w.current
  obtain ⟨f', hf', -, hb'⟩ := hu.embeds.function hf
  refine ⟨⟨s, hr, ⟨f', ?_, ?_⟩, ?_, ?_⟩, rfl, congrArg Frame.function hframe, hu⟩
  · rwa [hframe]
  · rw [hframe]
    exact hb' hb
  · rwa [hframe]
  · rw [hframe]
    exact w.passed

/-- The world at another place in the function. -/
theorem exists_with {fr : Frame} (hf : fr.function = w.state.frame.function)
    (hs : fr.subst = w.state.frame.subst) (hb : w.HasBlock fr.block) :
    ∃ x : RegularWorld p I, CodeWorld.state x = ⟨w.state.unit, fr⟩ ∧ w ≤ x := by
  refine ⟨⟨⟨w.state.unit, fr⟩, w.regular, ?_, ?_, ?_⟩, rfl, hf, .refl _⟩
  · rw [hf]
    exact hb
  · rw [hf]
    exact w.condition
  · rw [hs]
    exact w.passed

/-- The world after a change of the current function. -/
theorem exists_map {g : Function → Function} (hg : Function.Preserving g)
    (ho : (w.state.mapFunction g).unit.Orderly) :
    ∃ x : RegularWorld p I, CodeWorld.state x = w.state.mapFunction g ∧ w ≤ x := by
  have hp := (UnitState.Level.mapFunction w.state hg).precedes
  exact exists_at (w.regular.mapFunction hg ho w.current) hp
    (I.keep ⟨hp, .mapFunction w.state g, rfl, rfl⟩ w.condition) rfl

theorem exists_edited (w : RegularWorld p I) {g : Function → Function}
    (hg : Function.Edit w.state.frame.block g) :
    ∃ x : RegularWorld p I, CodeWorld.state x = w.state.mapFunction g ∧ w ≤ x := by
  obtain ⟨f, hf, hb⟩ := w.current
  have hc := UnitState.Calling.of_edit w.regular.orderly hf hb hg
  exact exists_map hg.preserving (w.regular.orderly.calling hc w.state.unit.gcRequired)

/-- The world after a call of a function of the module. -/
theorem exists_called (w : RegularWorld p I) {callee : FunctionId} (hc : w.HasFunction callee)
    (args : List ValueId) (attrs : Attributes) (t : Ty) :
    ∃ x : RegularWorld p I, CodeWorld.state x = w.state.mapFunction (fun f =>
      f.append w.state.frame.block ⟨.call callee args attrs, t⟩) ∧ w ≤ x := by
  obtain ⟨k, hk⟩ := hc
  obtain ⟨f, hf, hb⟩ := w.current
  have hcall := UnitState.Calling.of_call w.regular.orderly hf hb hk args attrs t
  exact exists_map (Function.preserving_append _ _)
    (w.regular.orderly.calling hcall w.state.unit.gcRequired)

/-- The world with the flag for the collector raised. -/
theorem exists_raised (w : RegularWorld p I) : ∃ x : RegularWorld p I, CodeWorld.state x =
    { w.state with unit := { w.state.unit with gcRequired := true } } ∧ w ≤ x := by
  have hr := w.regular
  have hp : w.state.unit.Precedes { w.state.unit with gcRequired := true } :=
    ⟨.refl _, id, fun _ => rfl, [], rfl⟩
  exact exists_at ⟨⟨hr.orderly.tidy, hr.orderly.table, hr.orderly.generated⟩, hr.found, hr.kind,
    hr.header, hr.descriptor, hr.bare, hr.exported⟩ hp
    (I.keep ⟨hp, ⟨.of_functions_eq rfl, id⟩, rfl, rfl⟩ w.condition) rfl

end RegularWorld

/-! ## Runs -/

namespace Gen

variable {p : Program} {I : Condition} {env : Env} {s : GenState}

/-- A step that declares a function that is defined elsewhere. -/
structure Declares (p : Program) (s : GenState)
    (heading : String × List Ty × Ty × Bool × Bool) (id : FunctionId) (s' : GenState) : Prop where
  frame : s'.frame = s.frame
  regular : s'.unit.Regular p
  precedes : s.unit.Precedes s'.unit
  specializations : s'.unit.specializations = s.unit.specializations
  requests : s'.unit.requests = s.unit.requests
  exports : s'.unit.module.exports = s.unit.module.exports
  functions : ∀ {i f}, s.unit.module.function? i = some f → s'.unit.module.function? i = some f
  function : ∃ f, s'.unit.module.function? id = some f ∧ f.heading = heading
  others : ∀ {i f}, s'.unit.module.function? i = some f → f.heading = heading ∨
    s.unit.module.function? i = some f

/-- The functions that were there are as they were. -/
theorem Declares.keeps {heading : String × List Ty × Ty × Bool × Bool} {id : FunctionId}
    {s' : GenState} (h : Declares p s heading id s') (own : FunctionId → Prop) :
    s.unit.Keeps s'.unit own :=
  ⟨⟨fun _ hf => h.functions hf, fun _ _ => .inr trivial⟩, h.precedes.table⟩

theorem Declares.plain {heading : String × List Ty × Ty × Bool × Bool} {id : FunctionId}
    {s' : GenState} (h : Declares p s heading id s') (own : FunctionId) : s.unit.Plain own s'.unit :=
  ⟨h.precedes, h.keeps _, h.specializations, h.exports⟩

theorem declareExternal_regular (h : s.unit.Regular p) {name : String}
    (hn : Mangling.isReserved name = false) (params : List Ty) (ret : Ty) (attrs : Attributes)
    (variadic : Bool) (span : Span) :
    Leads env s (declareExternal name params ret attrs variadic span)
      (Declares p s (name, params, ret, variadic, true)) fun _ s' => s' = s := by
  refine .read rfl ?_
  cases hl : s.unit.module.lookup name with
  | none =>
    obtain ⟨f, hd, hh, hblocks⟩ := Module.declare_new params ret attrs variadic hl
    rw [hd]
    have hlisted : f.listed = [] := by rw [Function.listed, hblocks]; rfl
    have hname : f.name = name := congrArg Prod.fst hh
    have hkind : f.isDeclaration = true := congrArg (·.2.2.2.2) hh
    have hregular : (s.unit.declare f).Regular p :=
      h.addFunction rfl (by rwa [hname]) (by rw [hname, hn, hkind]; rfl) (fun _ => hblocks)
        (fun hexp => by rw [Function.isDeclaration, hexp] at hkind; cases hkind)
        (h.orderly.declare hlisted hkind) rfl rfl
    refine .of_ok rfl {
      frame := rfl
      regular := hregular
      precedes := ⟨.addFunction _ _, id, id, [], rfl⟩
      specializations := rfl
      requests := rfl
      exports := rfl
      functions := fun hi => getElem?_push_of_some hi
      function := ⟨f, s.unit.module.function?_addFunction_next f, hh⟩
      others := fun {i k} hk => ?_ }
    by_cases hi : i = s.unit.module.nextFunction
    · rw [hi] at hk
      cases (s.unit.module.function?_addFunction_next f).symm.trans hk
      exact .inl hh
    · exact .inr ((s.unit.module.function?_addFunction_of_ne hi).symm.trans hk)
  | some id =>
    obtain ⟨f, hf, hname⟩ := h.orderly.tidy.symbols hl
    by_cases hh : f.heading = (name, params, ret, variadic, true)
    · rw [Module.declare_known hl hf hh]
      exact .of_ok rfl ⟨rfl, h, .refl _, rfl, rfl, rfl, fun hi => hi, ⟨f, hf, hh⟩, .inr⟩
    · rw [Module.declare_conflict hl hf hname hh]
      exact .of_error rfl rfl

theorem declareExternal_tracks (w : RegularWorld p I) {name : String}
    (hn : Mangling.isReserved name = false) (params : List Ty) (ret : Ty) (attrs : Attributes)
    (variadic : Bool) (span : Span) :
    Tracks env RegularWorld.Fails FunctionId w (RegularWorld.outlook p I).declared
      (declareExternal name params ret attrs variadic span)
      (declareExternal name params ret attrs variadic span) := by
  refine (declareExternal_regular w.regular hn params ret attrs variadic span).mono ?_ ?_
  · intro id s h
    obtain ⟨x, rfl, hwx⟩ := RegularWorld.exists_at (w := w) h.regular h.precedes
      (I.keep (h.plain _) w.condition) h.frame
    obtain ⟨f, hf, -⟩ := h.function
    exact ⟨x, rfl, hwx, id, f, hf⟩
  · rintro _ _ rfl
    exact .refl _

/-- An instruction that calls a function of the module. -/
theorem call_regular (w : RegularWorld p I) {callee : FunctionId} (hc : w.HasFunction callee)
    (t : Ty) (args : List ValueId) (attrs : Attributes) :
    Tracks env RegularWorld.Fails ValueId w (fun _ => Eq) (emit (.call callee t args attrs))
      (emit (.call callee t args attrs)) := by
  obtain ⟨x, hx, hwx⟩ := w.exists_called hc args attrs t
  exact .emit ⟨x, hx, hwx, _, rfl⟩ (.refl _)

/-- Every step keeps a unit regular. -/
theorem regular_trackable (I : Condition) (env : Env) :
    Trackable (RegularWorld.outlook env.program I) env RegularWorld.Fails where
  value := fun _ => rfl
  attributes := fun _ => rfl
  storage := fun _ => trivial
  later := fun hx he => hx.2.trans he
  struct := fun _ _ => trivial
  misplaced := fun w => .refl w.state.unit
  refused := fun hq _ _ => (UnitState.Level.of_quiet hq).precedes
  quiet := fun {w s} hq => by
    have hl := UnitState.Level.of_quiet hq
    exact RegularWorld.exists_at (w.regular.of_quiet hq) hl.precedes
      (I.keep ⟨hl.precedes, .of_alike hq.toAlike, hl.specializations, hq.exports⟩ w.condition)
      hq.toAlike.frame
  edit := fun {w g} hg => w.exists_edited hg
  opened := fun {w _ _} hx _ => by
    obtain ⟨f, hf, -⟩ := w.current
    exact GenState.hasBlock_mapFunction_addBlock hf hx
  moved := fun hb => RegularWorld.exists_with rfl rfl hb
  modifyFrame := fun {w g} hg => by
    obtain ⟨hfn, hblock, hsubst⟩ := hg (CodeWorld.state w).frame
    exact RegularWorld.exists_with hfn hsubst (by rw [hblock]; exact w.current)
  callSupport := fun {w} f args span => by
    refine (declareExternal_tracks w f.isReserved_symbol _ _ _ _ _).bind ?_
    rintro callee _ - ⟨x, rfl, hwx, _, hcallee⟩
    have hcallee : x.HasFunction callee := hcallee
    have called {y : RegularWorld env.program I} (hy : x ≤ y) :
        Leads env (CodeWorld.state y) (emit (.call callee f.ret args .none))
          (fun a s => ∃ z : RegularWorld env.program I, CodeWorld.state z = s ∧ w ≤ z ∧ ∃ a', a = a')
          w.Fails := by
      refine (call_regular y (hcallee.later hy) _ _ _).mono ?_
        fun _ _ he => (hwx.trans hy).2.trans he
      rintro a _ ⟨z, rfl, hyz, ha⟩
      exact ⟨z, rfl, (hwx.trans hy).trans hyz, ha⟩
    cases f.allocates with
    | true =>
      obtain ⟨y, hy, hxy⟩ := x.exists_raised
      refine Leads.bind (Q := fun _ s' => s' = CodeWorld.state y) (.of_ok rfl hy.symm) ?_
      rintro _ _ - rfl
      exact called hxy
    | false => exact called le_rfl
  declareMath := fun {w symbol} arity attrs span hsym =>
    declareExternal_tracks w (MathMember.isReserved_symbols symbol hsym) _ _ _ _ _
  callFunction := fun {w i j} args attrs hi => .read rfl (call_regular w hi _ args attrs)

/-! ## Layouts -/

/-- In a regular unit the header of arrays has always the same fields. -/
theorem arrayHeader_regular (h : s.unit.Regular env.program) :
    Leads env s arrayHeader
      (fun i t => s.Quiet env.program t ∧ t.unit.module.struct? i = some headerStruct)
      fun _ _ => False := by
  refine .read rfl ?_
  split
  · next i hi => exact .pure ⟨.same, h.header hi⟩
  · next hi => exact .of_ok rfl ⟨.header hi, Module.struct?_addStruct_next _ _ _⟩

/-- In a regular unit the descriptor of a class depends on the class alone, and so does the error if
there is none. -/
theorem descriptor_regular (h : s.unit.Regular env.program) (cls : ClassId) :
    Leads env s (descriptor cls)
      (fun d t => s.Quiet env.program t ∧ d.Describes env.program t.unit.module cls)
      fun e t => s.Quiet env.program t ∧ env.program.membersOf cls = .error e := by
  refine .read rfl ?_
  split
  · next d hd => exact .pure ⟨.same, h.descriptor hd⟩
  · next hnone =>
    refine Leads.bind (Q := fun d t => s.Quiet env.program (t.describe cls d) ∧
      d.Describes env.program t.unit.module cls) ?_ fun d t _ hq => .of_ok rfl hq
    unfold Leads
    rw [buildDescriptor_run]
    unfold Program.membersOf
    cases hdecl : env.program.class? cls with
    | none => exact ⟨.same, rfl⟩
    | some decl =>
      dsimp only
      cases hfields : decl.fieldInfos with
      | error e => exact ⟨.same, rfl⟩
      | ok fields =>
        dsimp only
        cases hmethods : env.program.methodNames decl with
        | error e => exact ⟨.abandoned _, rfl⟩
        | ok methods =>
          exact ⟨.descriptor hdecl hfields hmethods hnone, decl, fields, methods,
            Program.membersOf_eq hdecl hfields hmethods, rfl, Module.struct?_addStruct_next _ _ _⟩

end Gen

end TypedLowering
