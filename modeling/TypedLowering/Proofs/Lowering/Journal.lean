import TypedLowering.Proofs.Lowering.History
import TypedLowering.Proofs.Lowering.Mangling
import TypedLowering.Proofs.Ssa.Typing

/-!
The journal of requests for specializations. A request that the table answers gets the definition of
an earlier request with the same symbol. A symbol determines everything of a specialization but the
declaration itself: two functions of one name, in classes of one name, with the same types share it,
even if only one of them has a receiver.
-/
namespace TypedLowering
set_option autoImplicit false
open Ssa

/-! ## Signatures -/

/-- A function with the low-level signature of a specialization. -/
def Specialization.Shapes (s : Specialization) (f : Function) : Prop :=
  ∃ params ret, s.loweredParams = .ok params ∧ s.ret.lowered .dummy = .ok ret ∧
    f.signature = (params, ret, false)

theorem Specialization.Shapes.loweredParams {s : Specialization} {f : Function} (h : s.Shapes f) :
    s.loweredParams = .ok f.params := by
  obtain ⟨params, ret, hparams, -, hf⟩ := h
  rw [hparams, show f.params = params from congrArg Prod.fst hf]

theorem StaticType.lowered_span {t : StaticType} {span : Span} {ty : Ty}
    (h : t.lowered span = .ok ty) (other : Span) : t.lowered other = .ok ty := by
  cases t with
  | param name => cases h
  | _ => exact h

/-! ## Names of a program -/

/-- Names do not start with digits, and the class types that occur in parameters and type arguments
are told apart by their names. -/
structure Program.NamedBy (classOf : String → ClassId) (p : Program) : Prop where
  function : ∀ {f decl}, p.function? f = some decl → startsWithDigit decl.name = false
  owner : ∀ cls, startsWithDigit (p.className cls) = false
  param : ∀ {f decl q}, p.function? f = some decl → q ∈ decl.params → q.type.NamedBy classOf
  typeArgs : p.AppliesAt (StaticType.NamedBy classOf)

/-- No two functions with a body have the same name in classes of the same name. -/
def Program.DistinctNames (p : Program) : Prop :=
  ∀ {f g decl decl'}, p.function? f = some decl → p.function? g = some decl' →
    decl.body.isSome = true → decl'.body.isSome = true →
    decl.owner.map p.className = decl'.owner.map p.className → decl.name = decl'.name → f = g

namespace Specialization

variable {T : StaticType → Prop} {classOf : String → ClassId} {p : Program} {s s' : Specialization}

/-- A specialization of a function of the program that has a body, at types with `T`. -/
structure Declared (T : StaticType → Prop) (p : Program) (s : Specialization) : Prop where
  resolves : ∃ decl argCount span, p.function? s.func = some decl ∧ decl.body.isSome = true ∧
    s.Resolves p s.func decl s.typeArgs argCount span
  typeArgs : ∀ t ∈ s.typeArgs, T t

theorem Declared.subst (h : s.Declared T p) {name : String} {t : StaticType}
    (ht : s.subst.get? name = some t) : T t := by
  obtain ⟨_, _, _, -, -, hres⟩ := h.resolves
  exact h.typeArgs t (hres.mem_typeArgs ht)

theorem Declared.suppliedParams (hp : p.NamedBy classOf) (h : s.Declared (StaticType.NamedBy classOf) p) :
    ∀ t ∈ s.suppliedParams.map (·.type), t.NamedBy classOf := by
  intro t ht
  obtain ⟨decl, argCount, span, hdecl, -, hres⟩ := h.resolves
  obtain ⟨r, hr, rfl⟩ := List.mem_map.mp ht
  obtain ⟨q, hq, i, hi⟩ := hres.exists_param (List.mem_filter.mp hr).1
  rw [(concreteType_ok (resolveParam_ok hi).2.2.2.2.2.1).1]
  exact (hp.param hdecl hq).substitute h.subst

/-- What specializations with the same symbol have in common. -/
theorem Declared.of_symbol_eq (hp : p.NamedBy classOf) (h : s.Declared (StaticType.NamedBy classOf) p)
    (h' : s'.Declared (StaticType.NamedBy classOf) p) (hs : s.symbol p = s'.symbol p) :
    s.owner.map p.className = s'.owner.map p.className ∧ s.name = s'.name ∧
      s.suppliedParams.map (·.type) = s'.suppliedParams.map (·.type) ∧ s.typeArgs = s'.typeArgs := by
  have name {s : Specialization} (h : s.Declared (StaticType.NamedBy classOf) p) :
      startsWithDigit s.name = false := by
    obtain ⟨_, _, _, hdecl, -, hres⟩ := h.resolves
    rw [hres.name_eq]
    exact hp.function hdecl
  have owner {s : Specialization} (o : String) (ho : s.owner.map p.className = some o) :
      startsWithDigit o = false := by
    obtain ⟨cls, -, rfl⟩ := Option.map_eq_some_iff.mp ho
    exact hp.owner cls
  exact Mangling.symbol_inj owner owner (name h) (name h') (h.suppliedParams hp)
    (h'.suppliedParams hp) h.typeArgs h'.typeArgs hs

/-- Only the declaration is left open by a symbol. -/
theorem Declared.eq_iff (hp : p.NamedBy classOf) (h : s.Declared (StaticType.NamedBy classOf) p)
    (h' : s'.Declared (StaticType.NamedBy classOf) p) (hs : s.symbol p = s'.symbol p) :
    s = s' ↔ s.func = s'.func := by
  refine ⟨congrArg Specialization.func, fun hfunc => ?_⟩
  obtain ⟨-, -, hparams, htypes⟩ := h.of_symbol_eq hp h' hs
  obtain ⟨decl, argCount, span, hdecl, -, hres⟩ := h.resolves
  obtain ⟨decl', argCount', span', hdecl', -, hres'⟩ := h'.resolves
  rw [← hfunc, ← htypes] at hres'
  rw [← hfunc] at hdecl'
  cases hdecl.symm.trans hdecl'
  refine hres.unique hres' ?_
  rw [← List.length_map (f := fun q : ResolvedParam => q.type), hparams, List.length_map]

/-- Functions of any names: the symbol tells specializations of one declaration at the same type
arguments apart, which differ in what is supplied. -/
theorem Declared.eq_of_symbol_eq (h : s.Declared T p) (h' : s'.Declared T p)
    (hs : s.symbol p = s'.symbol p) (hfunc : s.func = s'.func) (htypes : s.typeArgs = s'.typeArgs) :
    s = s' := by
  obtain ⟨decl, argCount, span, hdecl, -, hres⟩ := h.resolves
  obtain ⟨decl', argCount', span', hdecl', -, hres'⟩ := h'.resolves
  rw [← hfunc, ← htypes] at hres'
  rw [← hfunc] at hdecl'
  cases hdecl.symm.trans hdecl'
  refine hres.unique hres' ?_
  have howner : s'.owner = s.owner := hres'.owner_eq.trans hres.owner_eq.symm
  have hname : s'.name = s.name := hres'.name_eq.trans hres.name_eq.symm
  have hsym := hs
  unfold Specialization.symbol at hsym
  rw [howner, hname, ← htypes] at hsym
  have hparams : s.suppliedParams.map (·.type) = s'.suppliedParams.map (·.type) := by
    rcases Nat.le_total argCount argCount' with hle | hle
    · exact Mangling.symbol_inj_of_sublist (hres.suppliedParams_sublist hres' hle) hsym
    · exact (Mangling.symbol_inj_of_sublist (hres'.suppliedParams_sublist hres hle) hsym.symm).symm
  rw [← List.length_map (f := fun q : ResolvedParam => q.type), hparams, List.length_map]

end Specialization

/-! ## The journal -/

/-- What the journal of a unit says of its table and its functions. -/
structure UnitState.Recorded (T : StaticType → Prop) (p : Program) (u : UnitState) : Prop where
  /-- The table has what requests have entered. -/
  entered : ∀ {symbol id}, u.specializations.get? symbol = some id →
    ∃ r ∈ u.requests, r.cached = false ∧ r.definition = id ∧ r.specialization.symbol p = symbol
  /-- A request that has entered a definition has made it after its specialization. -/
  defined : ∀ {r}, r ∈ u.requests → r.cached = false → ∃ f,
    u.module.function? r.definition = some f ∧ r.specialization.Shapes f
  declared : ∀ {r}, r ∈ u.requests → r.specialization.Declared T p
  /-- A request that the table has answered repeats an earlier one. -/
  origin : ∀ {later r earlier}, u.requests = later ++ r :: earlier → r.cached = true →
    ∃ r₀ ∈ earlier, r₀.cached = false ∧ r₀.definition = r.definition ∧
      r₀.specialization.symbol p = r.specialization.symbol p

namespace UnitState.Recorded

variable {T : StaticType → Prop} {p : Program} {u u' : UnitState}

/-- Nothing has been requested yet. -/
theorem new (p : Program) (name : String) :
    { module := { name } : UnitState }.Recorded T p where
  entered := fun hid => by cases hid
  defined := fun hmem => by cases hmem
  declared := fun hmem => by cases hmem
  origin := fun hsplit => by simp at hsplit

/-- Steps that enter nothing and leave the signatures of functions alone. -/
theorem of_signatures (h : u.Recorded T p) (hr : u'.requests = u.requests)
    (ht : u'.specializations = u.specializations)
    (hf : ∀ {id f}, u.module.function? id = some f →
      ∃ f', u'.module.function? id = some f' ∧ f'.signature = f.signature) : u'.Recorded T p where
  entered := fun hid => by
    rw [ht] at hid
    rw [hr]
    exact h.entered hid
  defined := fun hmem hc => by
    rw [hr] at hmem
    obtain ⟨f, hid, params, ret, hparams, hret, hsig⟩ := h.defined hmem hc
    obtain ⟨f', hid', hsig'⟩ := hf hid
    exact ⟨f', hid', params, ret, hparams, hret, hsig'.trans hsig⟩
  declared := fun hmem => h.declared (by rwa [hr] at hmem)
  origin := fun hsplit hc => h.origin (by rwa [hr] at hsplit) hc

theorem of_alike {s s' : GenState} (h : s.unit.Recorded T p) (ha : s.Alike s') :
    s'.unit.Recorded T p :=
  h.of_signatures ha.requests ha.specializations fun hf => ⟨_, (ha.function? _).trans hf, rfl⟩

theorem mapFunction {s : GenState} (h : s.unit.Recorded T p) {g : Function → Function}
    (hg : ∀ f, (g f).signature = f.signature) : (s.mapFunction g).unit.Recorded T p := by
  refine h.of_signatures rfl rfl fun {id f} hf => ?_
  have hm : (s.mapFunction g).unit.module.function? id = if s.frame.function = id then
      (s.unit.module.function? id).map g else s.unit.module.function? id :=
    Module.function?_modifyFunction _ _ _ _
  rw [hm, hf]
  split
  · exact ⟨_, rfl, hg f⟩
  · exact ⟨_, rfl, rfl⟩

theorem addExport (h : u.Recorded T p) (name : String) (id : FunctionId) :
    { u with module := u.module.addExport name id : UnitState }.Recorded T p := by
  refine h.of_signatures rfl rfl fun {id' f} hf => ?_
  show ∃ f', (u.module.addExport name id).function? id' = some f' ∧ _
  rw [Module.function?_addExport, hf]
  split
  · exact ⟨_, rfl, rfl⟩
  · exact ⟨_, rfl, rfl⟩

/-- A request that the table answers. -/
theorem recalled {s : GenState} (h : s.unit.Recorded T p) {sp : Specialization}
    {id : FunctionId} (hsp : sp.Declared T p)
    (hid : s.unit.specializations.get? (sp.symbol p) = some id) :
    (s.recalled sp id).unit.Recorded T p where
  entered := fun hid' => by
    obtain ⟨r, hr, hrest⟩ := h.entered hid'
    exact ⟨r, List.mem_cons_of_mem _ hr, hrest⟩
  defined := fun hmem hc => by
    rcases List.mem_cons.mp hmem with rfl | hmem
    · cases hc
    · exact h.defined hmem hc
  declared := fun hmem => by
    rcases List.mem_cons.mp hmem with rfl | hmem
    · exact hsp
    · exact h.declared hmem
  origin := by
    intro later r earlier hsplit hc
    rcases List.cons_eq_append_iff.mp hsplit with ⟨rfl, heq⟩ | ⟨rest, rfl, heq⟩
    · cases heq
      exact h.entered hid
    · exact h.origin heq hc

/-- A request that enters a definition. -/
theorem started {s : GenState} (h : s.unit.Recorded T p) {sp : Specialization}
    (hsp : sp.Declared T p) {params : List Ty} {ret : Ty} {span : Span}
    (hparams : sp.loweredParams = .ok params) (hret : sp.ret.lowered span = .ok ret) :
    (s.started sp (sp.symbol p) params ret).unit.Recorded T p where
  entered := by
    intro symbol id hid
    by_cases hsym : sp.symbol p = symbol
    · subst hsym
      cases (Dict.get?_insert_self _ _ _).symm.trans hid
      exact ⟨_, List.mem_cons_self, rfl, rfl, rfl⟩
    · obtain ⟨r, hr, hrest⟩ := h.entered ((Dict.get?_insert_of_ne _ _ hsym).symm.trans hid)
      exact ⟨r, List.mem_cons_of_mem _ hr, hrest⟩
  defined := by
    intro r hmem hc
    rcases List.mem_cons.mp hmem with rfl | hmem
    · exact ⟨_, s.unit.module.function?_addFunction_next _, params, ret, hparams,
        StaticType.lowered_span hret _, rfl⟩
    · obtain ⟨f, hf, hp⟩ := h.defined hmem hc
      exact ⟨f, (s.unit.module.function?_addFunction_of_ne (Module.ne_nextFunction hf)).trans hf, hp⟩
  declared := fun hmem => by
    rcases List.mem_cons.mp hmem with rfl | hmem
    · exact hsp
    · exact h.declared hmem
  origin := by
    intro later r earlier hsplit hc
    rcases List.cons_eq_append_iff.mp hsplit with ⟨rfl, heq⟩ | ⟨rest, rfl, heq⟩
    · cases heq
      cases hc
    · exact h.origin heq hc

end UnitState.Recorded

/-! ## Runs -/

namespace Gen

variable {α β : Type} {env : Env} {classOf : String → ClassId}

/-- The journal is in order, and the current function is specialized at types that are named. -/
structure Records (classOf : String → ClassId) (env : Env) (s : GenState) : Prop where
  recorded : s.unit.Recorded (StaticType.NamedBy classOf) env.program
  subst : ∀ {name t}, s.frame.subst.get? name = some t → t.NamedBy classOf

/-- Every run of `m` keeps the journal in order, also one that fails. -/
abbrev Documents (classOf : String → ClassId) (env : Env) : (α : Type) → Gen α → Prop :=
  Upholds env (Records classOf env) fun _ s => s.unit.Recorded (StaticType.NamedBy classOf) env.program

namespace Documents

theorem aside {m : Gen α} (hm : Aside env m) : Documents classOf env α m := by
  intro s hs
  refine (hm s).mono (fun _ s' ha => ⟨hs.recorded.of_alike ha, ?_⟩)
    fun _ s' ha => hs.recorded.of_alike ha.2
  rw [ha.frame]
  exact hs.subst

theorem step {m : Gen α} (h : ∀ s, ∃ a g, m env s = .ok a (s.mapFunction g) ∧
    ∀ f, (g f).signature = f.signature) : Documents classOf env α m := by
  intro s hs
  obtain ⟨a, g, hm, hg⟩ := h s
  exact .of_ok hm ⟨hs.recorded.mapFunction hg, hs.subst⟩

protected theorem bind {m : Gen α} {f : α → Gen β} (hm : Documents classOf env α m)
    (hf : ∀ a, (∃ s s', Records classOf env s ∧ m env s = .ok a s') → Documents classOf env β (f a)) :
    Documents classOf env β (m >>= f) := fun s hs =>
  (hm s hs).bind fun a s' hrun hs' => hf a ⟨s, s', hs, hrun⟩ s' hs'

theorem requireOpen : Documents classOf env Unit requireOpen := by
  intro s hs
  refine .read rfl ?_
  split
  · exact .of_error rfl hs.recorded
  · exact .pure hs

theorem declareExternal (name : String) (params : List Ty) (ret : Ty) (attrs : Attributes)
    (variadic : Bool) (span : Span) :
    Documents classOf env _ (declareExternal name params ret attrs variadic span) := by
  intro s hs
  refine .read rfl ?_
  split
  · next m hm =>
    have hadds : s.unit.module.Adds m (fun _ => False) fun _ => True := .declare hm fun _ _ => trivial
    exact .of_ok rfl ⟨hs.recorded.of_signatures rfl rfl fun hf => ⟨_, hadds.kept not_false hf, rfl⟩,
      hs.subst⟩
  · exact .of_error rfl hs.recorded

theorem declared {sp : Specialization} {signature : Signature}
    (ht : ∀ t ∈ signature.typeArgs, t.NamedBy classOf)
    (hr : sp.Requested env (Records classOf env) signature) {decl : FunctionDecl} {body : Node}
    (hdecl : env.program.function? sp.func = some decl) (hbody : decl.body = some body) :
    sp.Declared (StaticType.NamedBy classOf) env.program := by
  obtain ⟨st, decl', argCount, span, hst, hdecl', hres⟩ := hr.resolves
  have hfunc := hres.func_eq
  rw [hfunc] at hdecl
  cases hdecl.symm.trans hdecl'
  refine ⟨⟨decl, argCount, span, by rw [hfunc]; exact hdecl, by rw [hbody]; rfl, ?_⟩, ?_⟩
  · rw [hfunc, hres.typeArgs_eq]
    exact hres
  · intro t hmem
    rw [hres.typeArgs_eq] at hmem
    obtain ⟨u, hu, rfl⟩ := List.mem_map.mp hmem
    exact (ht u hu).substitute hst.subst

theorem pervasive : Pervasive env (Records classOf env) (StaticType.NamedBy classOf)
    (Documents classOf env) where
  aside := aside
  bind := .bind
  emit := fun _ => .bind requireOpen fun _ _ => step fun _ => ⟨_, _, rfl, fun _ => rfl⟩
  emitSlot := fun _ => step fun _ => ⟨_, _, rfl, fun _ => rfl⟩
  declare := declareExternal
  terminate := fun _ => .bind requireOpen fun _ _ => step fun _ => ⟨_, _, rfl, fun _ => rfl⟩
  appendBlock := fun _ => step fun _ => ⟨_, _, rfl, fun _ => rfl⟩
  modifyFrame := fun g hg s hs => by
    refine .of_ok rfl ⟨hs.recorded, fun {name t} hname => ?_⟩
    have hname : (g s.frame).subst.get? name = some t := hname
    rw [(hg s.frame).2] at hname
    exact hs.subst hname
  specialize := by
    intro generate signature sp span ht hr hb s hs
    refine specialize_leads (fun _ _ _ => hs.recorded) ?_ ?_ ?_
    · intro _ _ _ _ _ _ _
      exact declareExternal _ _ _ _ _ _ s hs
    · intro decl body params id hdecl hbody _ hid
      exact ⟨hs.recorded.recalled (declared ht hr hdecl hbody) hid, hs.subst⟩
    · intro decl body params ret hdecl hbody hparams hret _
      have hsp := declared ht hr hdecl hbody
      refine (hb decl body hdecl hbody _ ⟨hs.recorded.started hsp hparams hret, hsp.subst⟩).mono ?_ ?_
      · intro _ s' hs'
        exact ⟨hs'.recorded, hs.subst⟩
      · exact fun _ _ h => h

end Documents

end Gen

namespace Compiler

variable {classOf : String → ClassId} {c : Compiler}

theorem compileEntry_recorded (hp : c.env.program.NamedBy classOf)
    (hc : c.unit.Recorded (StaticType.NamedBy classOf) c.env.program) (func : FuncId) :
    (c.compileEntry func).2.unit.Recorded (StaticType.NamedBy classOf) c.env.program := by
  have hstart : Gen.Records classOf c.env c.start := ⟨hc, fun hname => by cases hname⟩
  have hentry := Gen.Documents.pervasive.entry hp.typeArgs (fun name id s hs =>
    .of_ok rfl ⟨hs.recorded.addExport name id, hs.subst⟩) func c.start hstart
  rcases compileEntry_leads hentry with ⟨_, s, -, hu, hq⟩ | ⟨_, s, -, hu, hq⟩
  · rw [hu]
    exact hq.recorded
  · rw [hu]
    exact hq

theorem after_recorded (hp : c.env.program.NamedBy classOf)
    (hc : c.unit.Recorded (StaticType.NamedBy classOf) c.env.program) (calls : List FuncId) :
    (c.after calls).unit.Recorded (StaticType.NamedBy classOf) c.env.program := by
  induction calls using List.reverseRecOn with
  | nil => exact hc
  | append_singleton calls func ih =>
    rw [after_snoc]
    have hstep := compileEntry_recorded (c := c.after calls) (by rw [after_env]; exact hp)
      (by rw [after_env]; exact ih) func
    rwa [after_env] at hstep

end Compiler

/-- A request that the table answers, in any sequence of calls on one compiler, gets a definition that
an earlier request has entered. The two agree in the names of function and class, in the types of the
parameters that are supplied and in the type arguments. They are the same specialization exactly if
they are of the same declaration, and the definition has the parameters that were asked for exactly
if both have a receiver or both have none. -/
theorem cached_request_origin {p : Program} {classOf : String → ClassId} (hp : p.NamedBy classOf)
    (config : Config) (registry : Registry) (calls : List FuncId) {later earlier : List Request}
    {r : Request}
    (h : ((Compiler.new p config registry).after calls).unit.requests = later ++ r :: earlier)
    (hc : r.cached = true) :
    ∃ r₀ ∈ earlier, r₀.cached = false ∧ r₀.definition = r.definition ∧
      r₀.specialization.owner.map p.className = r.specialization.owner.map p.className ∧
      r₀.specialization.name = r.specialization.name ∧
      r₀.specialization.suppliedParams.map (·.type)
        = r.specialization.suppliedParams.map (·.type) ∧
      r₀.specialization.typeArgs = r.specialization.typeArgs ∧
      (r₀.specialization = r.specialization ↔
        r₀.specialization.func = r.specialization.func) ∧
      (p.DistinctNames → r₀.specialization = r.specialization) ∧
      ∃ f, ((Compiler.new p config registry).after calls).unit.module.function? r.definition = some f ∧
        r₀.specialization.loweredParams = .ok f.params ∧
        (r.specialization.loweredParams = .ok f.params ↔
          r₀.specialization.isInstance = r.specialization.isInstance) := by
  have hrec : ((Compiler.new p config registry).after calls).unit.Recorded (StaticType.NamedBy classOf) p := by
    exact Compiler.after_recorded (c := Compiler.new p config registry) hp (.new p config.moduleName)
      calls
  obtain ⟨r₀, hmem, hfresh, hdef, hsym⟩ := hrec.origin h hc
  have hmem₀ : r₀ ∈ ((Compiler.new p config registry).after calls).unit.requests := by
    rw [h]
    exact List.mem_append_right _ (List.mem_cons_of_mem _ hmem)
  have hd : r.specialization.Declared (StaticType.NamedBy classOf) p := hrec.declared (by rw [h]; simp)
  have hd₀ : r₀.specialization.Declared (StaticType.NamedBy classOf) p := hrec.declared hmem₀
  obtain ⟨howner, hname, hparams, htypes⟩ := hd₀.of_symbol_eq hp hd hsym
  have hiff := hd₀.eq_iff hp hd hsym
  obtain ⟨decl₀, _, _, hdecl₀, hbody₀, hres₀⟩ := hd₀.resolves
  obtain ⟨decl, _, _, hdecl, hbody, hres⟩ := hd.resolves
  refine ⟨r₀, hmem, hfresh, hdef, howner, hname, hparams, htypes, hiff, fun hdistinct => ?_, ?_⟩
  · refine hiff.mpr (hdistinct hdecl₀ hdecl hbody₀ hbody ?_ ?_)
    · rw [← hres₀.owner_eq, ← hres.owner_eq]
      exact howner
    · rw [← hres₀.name_eq, ← hres.name_eq]
      exact hname
  · obtain ⟨f, hf, hshapes⟩ := hrec.defined hmem₀ hfresh
    have hlowered₀ := hshapes.loweredParams
    obtain ⟨params, _, hlowered, -⟩ := hres.exists_lowered .dummy
    rw [hdef] at hf
    refine ⟨f, hf, hlowered₀, ?_⟩
    rw [hlowered, Except.ok.injEq, eq_comm]
    exact Specialization.loweredParams_eq_iff hparams hlowered₀ hlowered

/-- `class C { static m(): void {} m(): void {} }`. -/
def twiceNamedProgram : Program :=
  let body : Node := .mk ⟨0⟩ .dummy .void (.block [])
  { functions := #[
      { name := "m", ret := .void, body := some body, owner := some ⟨0⟩, isStatic := true },
      { name := "m", ret := .void, body := some body, owner := some ⟨0⟩ }]
    classes := #[{ name := "C", methods := #[⟨0⟩, ⟨1⟩] }]
    entryPoints := [⟨0⟩, ⟨1⟩] }

theorem namedBy_twiceNamedProgram : twiceNamedProgram.NamedBy fun _ => ⟨0⟩ := by
  have hall : ∀ decl ∈ twiceNamedProgram.functions.toList, decl.name = "m" ∧ decl.params = [] ∧
      decl.body = some (.mk ⟨0⟩ .dummy .void (.block [])) := by
    simp [twiceNamedProgram]
  have hdecl {f decl} (hf : twiceNamedProgram.function? f = some decl) :=
    hall decl (Array.mem_toList_iff.mpr (Array.mem_of_getElem? hf))
  refine ⟨fun hf => ?_, fun cls => ?_, fun hf hq => ?_, ⟨fun hf hb => ?_, fun hf hq => ?_⟩⟩
  · rw [(hdecl hf).1]
    decide +kernel
  · unfold Program.className
    split
    · next c hc =>
      have hmem : c ∈ twiceNamedProgram.classes.toList :=
        Array.mem_toList_iff.mpr (Array.mem_of_getElem? hc)
      simp only [twiceNamedProgram, List.mem_singleton] at hmem
      rw [hmem]
      decide +kernel
    · decide +kernel
  · rw [(hdecl hf).2.1] at hq
    cases hq
  · cases (hdecl hf).2.2.symm.trans hb
    constructor
    · intro _ hs
      cases hs
    · intro _ hc
      cases hc
  · rw [(hdecl hf).2.1] at hq
    cases hq

/-- The journal after both methods have been compiled: the function, the answer and whether it was
there already. -/
theorem requests_twiceNamedProgram :
    ((Compiler.new twiceNamedProgram {} .standard).after [⟨0⟩, ⟨1⟩]).unit.requests.map
      (fun r => (r.specialization.func, r.specialization.isInstance, r.definition, r.cached))
      = [(⟨1⟩, true, ⟨0⟩, true), (⟨0⟩, false, ⟨0⟩, false)] := by
  decide +kernel

/-- The method with a receiver gets the definition of the one without. -/
theorem cached_request_origin_twiceNamed :
    ∃ r ∈ ((Compiler.new twiceNamedProgram {} .standard).after [⟨0⟩, ⟨1⟩]).unit.requests,
      r.cached = true ∧ r.specialization.func = ⟨1⟩ ∧
      ∃ f, ((Compiler.new twiceNamedProgram {} .standard).after [⟨0⟩, ⟨1⟩]).unit.module.function?
          r.definition = some f ∧ r.specialization.loweredParams ≠ .ok f.params := by
  have hmain := @cached_request_origin twiceNamedProgram _ namedBy_twiceNamedProgram {} .standard
    [⟨0⟩, ⟨1⟩]
  have hrequests := requests_twiceNamedProgram
  generalize (Compiler.new twiceNamedProgram {} .standard).after [⟨0⟩, ⟨1⟩] = c at hmain hrequests ⊢
  obtain ⟨r, rest, hlist, hr, hrest⟩ := List.map_eq_cons_iff.mp hrequests
  obtain ⟨r₀, hsingle, hr₀⟩ := List.map_eq_singleton_iff.mp hrest
  simp only [Prod.mk.injEq] at hr hr₀
  obtain ⟨r₁, hmem, -, -, -, -, -, -, -, -, f, hf, -, hiff⟩ := @hmain [] rest r hlist hr.2.2.2
  rw [hsingle, List.mem_singleton] at hmem
  subst hmem
  refine ⟨r, by rw [hlist]; exact List.mem_cons_self, hr.2.2.2, hr.1, f, hf, fun hlowered => ?_⟩
  have hinst := hiff.mp hlowered
  rw [hr.2.1, hr₀.2.1] at hinst
  cases hinst

end TypedLowering
