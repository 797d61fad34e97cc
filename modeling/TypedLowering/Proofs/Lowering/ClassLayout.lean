import TypedLowering.Proofs.Options.Literal
import TypedLowering.Proofs.Ssa.Layout
import TypedLowering.Proofs.Typing.Soundness

/-!
The memory of class instances. A class is laid out once: the descriptor that the table gets then holds
the number of a struct of the module and the size and alignment of this struct. Nothing that is
generated later replaces either, so the memory that `new` asks for is what the struct takes, and the
addresses of fields are those of fields of the same struct.

Main definitions:

- `UnitState.Described`: units whose table and names can be relied on;
- `UnitState.Retains`: what later units have in common with earlier ones;
- `GenState.LaysOut`, `GenState.Allocates`: the struct of a class, and memory for one instance of it.

Main result: `Gen.class_layouts_sound`.
-/
namespace TypedLowering
set_option autoImplicit false
open Ssa

/-! ## Units -/

/-- Names are bound to functions that have them, and the table has descriptors of the classes that it
lists, with their structs in the module. -/
structure UnitState.Described (p : Program) (u : UnitState) : Prop where
  named : ∀ {name id}, u.module.lookup name = some id →
    ∃ f, u.module.function? id = some f ∧ f.name = name
  descriptor : ∀ {cls d}, u.descriptors.get? cls = some d → d.Describes p u.module cls

/-- Functions keep their names, signatures and values; structs and descriptors stay. -/
structure UnitState.Retains (u u' : UnitState) : Prop where
  module : u.module.Prolongs u'.module
  name : ∀ {id f}, u.module.function? id = some f →
    ∃ f', u'.module.function? id = some f' ∧ f'.name = f.name
  descriptor : ∀ {cls d}, u.descriptors.get? cls = some d → u'.descriptors.get? cls = some d

namespace UnitState.Retains

variable {u u' u'' : UnitState}

theorem refl (u : UnitState) : u.Retains u := ⟨.refl _, fun hf => ⟨_, hf, rfl⟩, id⟩

theorem trans (h : u.Retains u') (h' : u'.Retains u'') : u.Retains u'' := by
  refine ⟨h.module.trans h'.module, fun hf => ?_, fun hd => h'.descriptor (h.descriptor hd)⟩
  obtain ⟨f', hf', hname⟩ := h.name hf
  obtain ⟨f'', hf'', hname'⟩ := h'.name hf'
  exact ⟨f'', hf'', hname'.trans hname⟩

/-- Each function is changed in a way that leaves its name and its values. -/
theorem modifyFunction (u : UnitState) (id : FunctionId) {g : Function → Function}
    (hg : ∀ f, f.Prolongs (g f) ∧ (g f).name = f.name) :
    u.Retains { u with module := u.module.modifyFunction id g } := by
  have after {other : FunctionId} {f : Function} (hf : u.module.function? other = some f) :
      ∃ f', (u.module.modifyFunction id g).function? other = some f' ∧ f.Prolongs f' ∧
        f'.name = f.name := by
    rw [u.module.function?_modifyFunction, hf]
    split
    · exact ⟨g f, rfl, hg f⟩
    · exact ⟨f, rfl, .refl f, rfl⟩
  refine ⟨⟨fun hf => ?_, fun hs => hs⟩, fun hf => ?_, fun hd => hd⟩
  · obtain ⟨f', hf', hp, -⟩ := after hf
    exact ⟨f', hf', hp⟩
  · obtain ⟨f', hf', -, hname⟩ := after hf
    exact ⟨f', hf', hname⟩

theorem mapFunction (s : GenState) {g : Function → Function}
    (hg : ∀ f, f.Prolongs (g f) ∧ (g f).name = f.name) : s.unit.Retains (s.mapFunction g).unit :=
  modifyFunction s.unit s.frame.function hg

theorem addFunction (f : Function) (hm : u'.module = u.module.addFunction f)
    (hd : u'.descriptors = u.descriptors) : u.Retains u' where
  module := by
    rw [hm]
    exact u.module.prolongs_addFunction f
  name := fun {id k} hk => by
    rw [hm, u.module.function?_addFunction_of_ne (Module.ne_nextFunction hk)]
    exact ⟨k, hk, rfl⟩
  descriptor := fun h => by rwa [hd]

theorem of_quiet {p : Program} {s s' : GenState} (h : s.Quiet p s') : s.unit.Retains s'.unit where
  module := .of_kept (fun hf => (h.toAlike.function? _).trans hf) (Level.of_quiet h).embeds.struct
  name := fun hf => ⟨_, (h.toAlike.function? _).trans hf, rfl⟩
  descriptor := fun {cls d} hd => by
    cases h with
    | @descriptor other _ _ _ _ _ _ hnone =>
      have hne : other ≠ cls := by
        rintro rfl
        cases hnone.symm.trans hd
      exact (Dict.get?_insert_of_ne _ _ hne).trans hd
    | _ => exact hd

/-- An instruction of the function under construction stays what it is. -/
theorem definition? {s t : GenState} (h : s.unit.Retains t.unit)
    (hframe : t.frame.function = s.frame.function) {x : ValueId} {d : Definition}
    (hx : s.definition? x = some d) : t.definition? x = some d := by
  unfold GenState.definition? GenState.query at hx ⊢
  rw [hframe]
  cases hf : s.unit.module.function? s.frame.function with
  | none =>
    rw [hf] at hx
    cases hx
  | some f =>
    rw [hf] at hx
    obtain ⟨f', hf', hp⟩ := h.module.function hf
    rw [hf']
    exact hp.values hx

end UnitState.Retains

namespace UnitState.Described

variable {p : Program} {u u' : UnitState} {s s' : GenState}

theorem new (p : Program) (name : String) : { module := { name } : UnitState }.Described p :=
  ⟨fun h => (nomatch h), fun h => (nomatch h)⟩

/-- A step that binds no name and enters no descriptor. -/
theorem of_retains (h : u.Described p) (hr : u.Retains u')
    (hs : u'.module.symbols = u.module.symbols) (hd : u'.descriptors = u.descriptors) :
    u'.Described p where
  named := fun {name id} hl => by
    obtain ⟨f, hf, hname⟩ := h.named (show u.module.symbols.get? name = some id by rwa [← hs])
    obtain ⟨f', hf', hname'⟩ := hr.name hf
    exact ⟨f', hf', hname'.trans hname⟩
  descriptor := fun {cls d} h' => (h.descriptor (by rwa [← hd])).of_structs hr.module.struct

theorem mapFunction (h : s.unit.Described p) {g : Function → Function}
    (hg : ∀ f, f.Prolongs (g f) ∧ (g f).name = f.name) : (s.mapFunction g).unit.Described p :=
  h.of_retains (.mapFunction s hg) rfl rfl

theorem addFunction (h : u.Described p) (f : Function) (hm : u'.module = u.module.addFunction f)
    (hd : u'.descriptors = u.descriptors) : u'.Described p := by
  have hr : u.Retains u' := .addFunction f hm hd
  refine ⟨fun {name id} hl => ?_, fun h' => (h.descriptor (hd ▸ h')).of_structs hr.module.struct⟩
  rw [hm] at hl ⊢
  by_cases hname : f.name = name
  · subst hname
    rw [u.module.lookup_addFunction_self f] at hl
    cases hl
    exact ⟨f, u.module.function?_addFunction_next f, rfl⟩
  · rw [Module.lookup, Module.addFunction, Dict.get?_insert_of_ne _ _ hname] at hl
    obtain ⟨k, hk, hkname⟩ := h.named hl
    exact ⟨k, (u.module.function?_addFunction_of_ne (Module.ne_nextFunction hk)).trans hk, hkname⟩

theorem of_quiet (h : s.unit.Described p) (hq : s.Quiet p s') : s'.unit.Described p := by
  have hr := Retains.of_quiet hq
  have hsymbols := hq.toAlike.symbols
  cases hq with
  | @descriptor cls decl fields methods hdecl hfields hmethods =>
    have hstruct : s.unit.Retains (s.addStruct (decl.struct fields)).unit := ⟨hr.module, hr.name, id⟩
    refine ⟨(h.of_retains hstruct hsymbols rfl).named, fun {other d} hd => ?_⟩
    by_cases hcls : cls = other
    · subst hcls
      cases (Dict.get?_insert_self _ _ _).symm.trans hd
      exact ⟨decl, fields, methods, Program.membersOf_eq hdecl hfields hmethods, rfl,
        Module.struct?_addStruct_next _ _ _⟩
    · have hold := h.descriptor ((Dict.get?_insert_of_ne _ _ hcls).symm.trans hd)
      exact hold.of_structs hr.module.struct
  | _ => exact h.of_retains hr hsymbols rfl

end UnitState.Described

/-- Generation gets from one state to another: the units are described, and what was there is. -/
structure GenState.Onward (p : Program) (s t : GenState) : Prop where
  described : t.unit.Described p
  retains : s.unit.Retains t.unit

theorem GenState.Onward.refl {p : Program} {s : GenState} (h : s.unit.Described p) : s.Onward p s :=
  ⟨h, .refl _⟩

theorem GenState.Onward.trans {p : Program} {s t u : GenState} (h : s.Onward p t) (h' : t.Onward p u) :
    s.Onward p u := ⟨h'.described, h.retains.trans h'.retains⟩

/-! ## Steps -/

theorem Ssa.Function.Edit.retains {b : BlockId} {g : Function → Function} (h : Function.Edit b g)
    (f : Function) : f.Prolongs (g f) ∧ (g f).name = f.name := by
  refine ⟨?_, (h.carries f).name⟩
  cases h with
  | append => exact f.prolongs_append _ _
  | addSlot t => exact f.prolongs_addSlot t
  | terminate t => exact ⟨rfl, id⟩
  | addBlock word => exact ⟨rfl, id⟩

namespace Gen

variable {α β : Type} {env : Env} {span : Span} {s t : GenState} {m m' : Gen α}

/-- Every run of a computation from a described unit goes onward, whichever way it ends. -/
def GoesOn (env : Env) (m : Gen α) : Prop :=
  ∀ s : GenState, s.unit.Described env.program → Leads env s m
    (fun _ t => s.Onward env.program t ∧ t.frame.function = s.frame.function)
    fun _ t => s.Onward env.program t

namespace GoesOn

protected theorem bind {f : α → Gen β} (hm : GoesOn env m) (hf : ∀ a, GoesOn env (f a)) :
    GoesOn env (m >>= f) := by
  intro s hs
  refine (hm s hs).bind fun a t _ ⟨ht, hframe⟩ => ?_
  refine (hf a t ht.described).mono ?_ fun _ _ hu => ht.trans hu
  exact fun _ u ⟨hu, hframe'⟩ => ⟨ht.trans hu, hframe'.trans hframe⟩

theorem emit (d : Definition) : GoesOn env (Gen.emit d) := fun s hs => by
  have hg (f : Function) : f.Prolongs (f.append s.frame.block d) ∧
      (f.append s.frame.block d).name = f.name := ⟨f.prolongs_append _ _, rfl⟩
  refine .emit (Q := fun _ t => s.Onward env.program t ∧ t.frame.function = s.frame.function) ?_
    (.refl hs)
  exact ⟨⟨hs.mapFunction hg, .mapFunction s hg⟩, rfl⟩

theorem callFunction (callee : FunctionId) (args : List ValueId) (attrs : Attributes) :
    GoesOn env (Gen.callFunction callee args attrs) := fun s hs => .read rfl (emit _ s hs)

theorem declareExternal (name : String) (params : List Ty) (ret : Ty) (attrs : Attributes)
    (variadic : Bool) : GoesOn env (Gen.declareExternal name params ret attrs variadic span) := by
  intro s hs
  refine .read rfl ?_
  split
  · next id m hd =>
    rcases Module.declare_cases hd with ⟨-, rfl, rfl⟩ | ⟨-, rfl, -⟩
    · exact .of_ok rfl ⟨⟨hs.addFunction _ rfl rfl, .addFunction _ rfl rfl⟩, rfl⟩
    · exact .of_ok rfl ⟨.refl hs, rfl⟩
  · exact .of_error rfl (.refl hs)

theorem callSupport (f : SupportFunction) (args : List ValueId) :
    GoesOn env (Gen.callSupport f args span) := by
  have raise : GoesOn env (modifyUnit fun u => { u with gcRequired := true }) := fun s hs =>
    .of_ok rfl ⟨⟨⟨hs.named, hs.descriptor⟩, .refl _, fun hf => ⟨_, hf, rfl⟩, id⟩, rfl⟩
  exact callSupport_of (P := fun _ => GoesOn env) .bind (declareExternal _ _ _ _ _) raise emit args

theorem ofSpecialize {generate : Generate} {sp : Specialization}
    (hbody : ∀ body, GoesOn env (generateBody generate sp body span)) :
    GoesOn env (specialize generate sp span) := by
  intro s hs
  refine specialize_leads (fun _ _ _ => .refl hs) ?_ ?_ ?_
  · exact fun _ _ _ _ _ _ _ => declareExternal _ _ _ _ _ s hs
  · exact fun _ _ _ _ _ _ _ _ =>
      ⟨⟨⟨hs.named, hs.descriptor⟩, .refl _, fun hf => ⟨_, hf, rfl⟩, id⟩, rfl⟩
  · intro decl body params ret _ _ _ _ _
    let s₁ := s.started sp (sp.symbol env.program) params ret
    have started : s.Onward env.program s₁ :=
      ⟨hs.addFunction _ rfl rfl, .addFunction _ rfl rfl⟩
    refine (hbody body s₁ started.described).mono ?_ fun _ _ ht => started.trans ht
    rintro _ t ⟨ht, -⟩
    exact ⟨⟨ht.described, started.retains.trans ht.retains⟩, rfl⟩

end GoesOn

end Gen

/-! ## Runs -/

/-- A state with a unit that is described. -/
structure DescribedWorld (p : Program) where
  state : GenState
  described : state.unit.Described p

namespace DescribedWorld

variable {p : Program}

instance : CodeWorld (DescribedWorld p) where
  state := state
  le w x := x.state.frame.function = w.state.frame.function ∧ w.state.unit.Retains x.state.unit
  le_refl _ := ⟨rfl, .refl _⟩
  le_trans _ _ _ h h' := ⟨h'.1.trans h.1, h.2.trans h'.2⟩

def outlook : Outlook (DescribedWorld p) where
  value := Eq
  attributes := Eq
  storage _ := True
  block _ _ := True
  declared _ _ _ := True
  struct _ _ _ := True
  attributes_none := rfl
  storage_of := fun _ => trivial
  block_mono := fun _ => id
  declared_mono := fun _ => id
  struct_mono := fun _ => id

/-- Runs that fail go onward, too. -/
def Fails (w : DescribedWorld p) (_ : Failure) (s : GenState) : Prop := w.state.Onward p s

end DescribedWorld

namespace Gen

variable {α : Type} {env : Env} {span : Span} {s t : GenState} {m m' : Gen α} {depth : Nat}

theorem GoesOn.tracks (h : GoesOn env m) {w : DescribedWorld env.program}
    {V : DescribedWorld env.program → α → α → Prop} (hV : ∀ x a, V x a a) :
    Tracks env DescribedWorld.Fails α w V m m' :=
  (h w.state w.described).mono
    (fun a t ⟨ht, hframe⟩ => ⟨⟨t, ht.described⟩, rfl, ⟨hframe, ht.retains⟩, a, hV _ a⟩) fun _ _ h => h

theorem GoesOn.of_tracks {V : DescribedWorld env.program → α → α → Prop}
    (h : ∀ w : DescribedWorld env.program, Tracks env DescribedWorld.Fails α w V m m') :
    GoesOn env m := fun s hs => by
  refine (h ⟨s, hs⟩).mono ?_ fun _ _ h => h
  rintro _ _ ⟨x, rfl, hx, -⟩
  exact ⟨⟨x.described, hx.2⟩, hx.1⟩

theorem described_trackable (env : Env) :
    Trackable DescribedWorld.outlook env (DescribedWorld.Fails (p := env.program)) where
  value := fun _ => rfl
  attributes := fun _ => rfl
  storage := fun _ => trivial
  later := fun hx he => ⟨he.described, hx.2.trans he.retains⟩
  struct := fun _ _ => trivial
  misplaced := fun w => .refl w.described
  refused := fun {w _ _} hq _ _ => ⟨w.described.of_quiet hq, .of_quiet hq⟩
  quiet := fun {w s} hq => ⟨⟨s, w.described.of_quiet hq⟩, rfl,
    congrArg Frame.function hq.toAlike.frame, .of_quiet hq⟩
  edit := fun {w _} hg =>
    ⟨⟨_, w.described.mapFunction hg.retains⟩, rfl, rfl, .mapFunction _ hg.retains⟩
  opened := fun _ _ => trivial
  moved := fun {w b} _ =>
    ⟨⟨{ w.state with frame := { w.state.frame with block := b } }, w.described⟩, rfl, rfl, .refl _⟩
  modifyFrame := fun {w g} hg =>
    ⟨⟨{ w.state with frame := g w.state.frame }, w.described⟩, rfl, (hg _).1, .refl _⟩
  callSupport := fun f args _ => (GoesOn.callSupport f args).tracks fun _ _ => rfl
  declareMath := fun arity attrs _ _ =>
    (GoesOn.declareExternal _ (List.replicate arity .f64) .f64 attrs false).tracks
      fun _ _ => trivial
  callFunction := fun args attrs _ => (GoesOn.callFunction _ args attrs).tracks fun _ _ => rfl

theorem described_serves (hn : ∀ n, Coupling.Couples DescribedWorld.outlook (fun t => t)
      (Gen.generate depth) (Gen.generate depth)
      (Tracks env (DescribedWorld.Fails (p := env.program))) n)
    (w : DescribedWorld env.program) :
    Serves env (fun _ => True) (fun _ => True) (Gen.generate depth) DescribedWorld.Fails w := by
  intro signature sp decl typeArgs argCount span args _ _ _ _
  have hrequest : GoesOn env (specialize (Gen.generate depth) sp span) :=
    .ofSpecialize fun body => .of_tracks fun w =>
      (described_trackable env).body (hn body) (fun _ _ d _ => hn d) span
  exact (hrequest.bind fun callee => .callFunction callee args .none).tracks fun _ _ => rfl

theorem described_nodes (env : Env) (depth : Nat) (n : Node) :
    Coupling.Couples DescribedWorld.outlook (fun t => t) (Gen.generate depth) (Gen.generate depth)
      (Tracks env (DescribedWorld.Fails (p := env.program))) n :=
  (described_trackable env).nodes (fun w => .refl w.described) (fun _ => described_serves) depth n

/-- Whatever is generated. -/
theorem generate_goesOn (env : Env) (depth : Nat) (n : Node) : GoesOn env (Gen.generate depth n) :=
  .of_tracks (described_nodes env depth n)

theorem emitCall_goesOn (env : Env) (depth : Nat) (signature : Signature) (receiver : Option ValueId)
    (args : List Node) (span : Span) :
    GoesOn env (emitCall (Gen.generate depth) signature receiver args span) := by
  have hc : Coupling DescribedWorld.outlook env env (fun t => t) (fun _ => True) (fun _ => True)
      (Gen.generate depth) (Gen.generate depth)
      (Tracks env (DescribedWorld.Fails (p := env.program))) :=
    (described_trackable env).coupling (fun _ _ _ _ _ => trivial)
      (described_serves (described_nodes env depth))
  have hreceiver : Option.Rel Eq receiver receiver := by
    cases receiver with
    | none => exact .none
    | some x => exact .some rfl
  exact .of_tracks fun _ => hc.emitCall trivial (fun c _ => described_nodes env depth c) hreceiver span

end Gen

namespace Compiler

open Gen

/-- A compiler goes on with a described unit, whether or not an entry point can be compiled. -/
theorem compileEntry_described {c : Compiler} (hc : c.unit.Described c.env.program) (func : FuncId) :
    (c.compileEntry func).2.unit.Described c.env.program ∧
      c.unit.Retains (c.compileEntry func).2.unit := by
  have hrun : Leads c.env { unit := c.unit, frame := .outside }
      (entryWithin (fun _ => c.env.program.depthBound) func)
      (fun _ t => t.unit.Described c.env.program ∧ c.unit.Retains t.unit)
      fun _ t => t.unit.Described c.env.program ∧ c.unit.Retains t.unit := by
    refine entryWithin_leads (fun _ _ _ => ⟨hc, .refl _⟩) fun decl sp _ => ?_
    have hsp : GoesOn c.env (specialize (Gen.generate c.env.program.depthBound) sp decl.span) :=
      .ofSpecialize fun body => .of_tracks fun w =>
        (described_trackable c.env).body (described_nodes c.env _ body)
          (fun _ _ d _ => described_nodes c.env _ d) decl.span
    refine (hsp _ hc).mono ?_ fun _ _ ht => ⟨ht.described, ht.retains⟩
    rintro id t ⟨ht, -⟩
    have hexport : t.unit.Retains { t.unit with module := t.unit.module.addExport decl.name id } := by
      have hg (f : Function) : f.Prolongs { f with linkage := .exported } ∧
          ({ f with linkage := .exported } : Function).name = f.name := ⟨⟨rfl, fun hd => hd⟩, rfl⟩
      have hm := UnitState.Retains.modifyFunction t.unit id hg
      exact ⟨⟨hm.module.function, hm.module.struct⟩, hm.name, hm.descriptor⟩
    exact ⟨ht.described.of_retains hexport rfl rfl, ht.retains.trans hexport⟩
  rw [compileEntry_eq]
  rcases compileEntryAt_leads hrun with ⟨_, _, heq, ht⟩ | ⟨_, _, heq, ht⟩
  · rw [heq]
    exact ht
  · rw [heq]
    exact ht

end Compiler

/-! ## Instances -/

namespace GenState

/-- A class has a descriptor, and a struct of the module has its fields, size and alignment. -/
structure LaysOut (s : GenState) (cls : ClassId) (d : ClassDescriptor) (sd : StructDef) : Prop where
  known : s.unit.descriptors.get? cls = some d
  registered : s.unit.module.struct? d.layout = some sd
  fields : sd.fields = d.fields.map (·.lowered)
  size : d.size = sd.size
  align : d.align = sd.align

/-- An address that is the answer to a request for memory of the size and the alignment of a struct. -/
def Allocates (s : GenState) (address : ValueId) (sd : StructDef) : Prop :=
  ∃ callee f size align, s.unit.module.function? callee = some f ∧ f.name = "brisk_object_alloc" ∧
    s.definition? address = some (.call callee .ptr [size, align] .none) ∧
    s.definition? size = some (.const (.i64 sd.size)) ∧
    s.definition? align = some (.const (.i64 sd.align))

variable {s t : GenState} {p : Program} {cls : ClassId} {d : ClassDescriptor} {sd : StructDef}

theorem exists_laysOut (hs : s.unit.Described p) (hd : s.unit.descriptors.get? cls = some d) :
    ∃ sd, s.LaysOut cls d sd := by
  obtain ⟨decl, fields, methods, -, heq, hstruct⟩ := hs.descriptor hd
  refine ⟨decl.struct fields, hd, hstruct, ?_, ?_, ?_⟩ <;> rw [heq] <;> rfl

theorem LaysOut.later (h : s.LaysOut cls d sd) (hr : s.unit.Retains t.unit) : t.LaysOut cls d sd :=
  ⟨hr.descriptor h.known, hr.module.struct h.registered, h.fields, h.size, h.align⟩

theorem Allocates.later {address : ValueId} (h : s.Allocates address sd) (hr : s.unit.Retains t.unit)
    (hframe : t.frame.function = s.frame.function) : t.Allocates address sd := by
  obtain ⟨callee, f, size, align, hf, hname, haddress, hsize, halign⟩ := h
  obtain ⟨f', hf', hname'⟩ := hr.name hf
  exact ⟨callee, f', size, align, hf', hname'.trans hname, hr.definition? hframe haddress,
    hr.definition? hframe hsize, hr.definition? hframe halign⟩

end GenState

namespace Gen

variable {env : Env} {s t : GenState} {span : Span} {cls : ClassId} {name : String}
  {d : ClassDescriptor} {sd : StructDef} {args : List Node} {signature : Option Signature} {v : Value}
  {x : ValueId} {depth : Nat}

/-! ### Fields -/

/-- The objects of a class are taken for structs `sd`: whenever the descriptor of the class is asked for
it is `d`, and the members of an object with this descriptor are fields of the struct. -/
structure Accesses (env : Env) (s : GenState) (cls : ClassId) (d : ClassDescriptor) (sd : StructDef) :
    Prop where
  descriptor : descriptor cls env s = .ok d s
  objectAt : ∀ address name span,
    objectAt address (.object cls name) span env s = .ok (.instanceAt d address) s
  getField : ∀ {o : ObjectRef} {member span v t}, o.kind = .cls d →
    getField o member span env s = .ok v t →
    ∃ object i lowered type, o.address = some object ∧ sd.fields[i]? = some lowered ∧
      v = .assignable ⟨.field object d.layout i lowered, type⟩

/-- A class has one descriptor: the one in the table. -/
theorem descriptor_known (h : s.LaysOut cls d sd) : descriptor cls env s = .ok d s := by
  rw [descriptor_run, h.known]

/-- The descriptor that is asked for is the one in the table afterwards. -/
theorem descriptor_enters (h : descriptor cls env s = .ok d t) :
    t.unit.descriptors.get? cls = some d :=
  Leads.ok (Q := fun d t => t.unit.descriptors.get? cls = some d) (E := fun _ _ => True)
    (descriptor_leads (fun _ hd => hd) (fun _ _ _ => trivial) (fun _ _ _ _ => trivial)
      fun _ _ _ _ _ _ _ => Dict.get?_insert_self _ _ _) h

/-- A member of an instance is a place in the struct of its class. -/
theorem classField_place {o : ObjectRef} {member : String}
    (hfields : sd.fields = d.fields.map (·.lowered))
    (h : classField d o member span env s = .ok v t) :
    ∃ object i lowered type, o.address = some object ∧ sd.fields[i]? = some lowered ∧
      v = .assignable ⟨.field object d.layout i lowered, type⟩ := by
  unfold classField at h
  cases hfield : d.field? member with
  | some found =>
    obtain ⟨field, i⟩ := found
    rw [hfield] at h
    obtain ⟨object, s₁, haddress, hv⟩ := bind_ok h
    cases hv
    have hmem : d.fields[i]? = some field :=
      List.mem_zipIdx_iff_getElem?.mp (List.mem_of_find?_eq_some hfield)
    refine ⟨object, i, field.lowered, field.type, ?_, ?_, rfl⟩
    · unfold requireAddress at haddress
      cases ha : o.address with
      | some a =>
        rw [ha] at haddress
        cases haddress
        rfl
      | none =>
        rw [ha] at haddress
        cases haddress
    · rw [hfields, List.getElem?_map, hmem]
      rfl
  | none =>
    rw [hfield] at h
    dsimp only at h
    by_cases hmethod : (d.methods.get? member).isSome = true
    · rw [if_pos hmethod] at h
      cases h
    · rw [if_neg hmethod] at h
      cases h

/-- A field is read from its address in the struct. -/
theorem load_field {object : ValueId} {struct : StructId} {i : Nat} {lowered : Ty} {type : StaticType}
    (hs : s.Inside)
    (h : load ⟨.field object struct i lowered, type⟩ span env s = .ok x t) :
    ∃ ptr, t.definition? ptr = some (.fieldPtr object struct i) ∧
      t.definition? x = some (.load lowered ptr) := by
  obtain ⟨ptr, s₁, hptr, hx⟩ := bind_ok h
  obtain ⟨hcont, hdef, -⟩ := emit_ok hs hptr
  obtain ⟨hcont', hdef', -⟩ := emit_ok hcont.inside hx
  exact ⟨ptr, hcont'.kept hdef, hdef'⟩

/-- A field is written to its address in the struct. -/
theorem store_field {object : ValueId} {struct : StructId} {i : Nat} {lowered : Ty} {type : StaticType}
    (hs : s.Inside)
    (h : store ⟨.field object struct i lowered, type⟩ x span env s = .ok () t) :
    ∃ ptr y, t.definition? ptr = some (.fieldPtr object struct i) ∧
      t.definition? y = some (.store x ptr) := by
  obtain ⟨ptr, s₁, hptr, hstore⟩ := bind_ok h
  obtain ⟨y, s₂, hy, hend⟩ := bind_ok hstore
  cases hend
  obtain ⟨hcont, hdef, -⟩ := emit_ok hs hptr
  obtain ⟨hcont', hdef', -⟩ := emit_ok hcont.inside hy
  exact ⟨ptr, y, hcont'.kept hdef, hdef'⟩

theorem accesses_of_laysOut (h : s.LaysOut cls d sd) : Accesses env s cls d sd where
  descriptor := descriptor_known h
  objectAt := fun address name span => by
    show (do return ObjectRef.instanceAt (← descriptor cls) address : Gen ObjectRef) env s = _
    rw [run_bind, descriptor_known h]
    rfl
  getField := fun {o member span v t} hkind hrun => by
    unfold getField at hrun
    rw [hkind] at hrun
    exact classField_place h.fields hrun

/-! ### Construction -/

/-- The memory of a new instance is requested before its constructor runs, which leaves it alone. -/
theorem classNew_allocates (hs : s.unit.Described env.program) (hin : s.Inside)
    (hsize : d.size = sd.size) (halign : d.align = sd.align)
    (h : classNew (Gen.generate depth) d args signature span env s = .ok v t) :
    ∃ address, v = .object (.instanceAt d address) ∧ t.Allocates address sd ∧
      s.Onward env.program t ∧ t.frame.function = s.frame.function := by
  obtain ⟨size, s₁, hsizeRun, h⟩ := bind_ok h
  obtain ⟨align, s₂, halignRun, h⟩ := bind_ok h
  obtain ⟨address, s₃, hcall, h⟩ := bind_ok h
  obtain ⟨hcont₁, hsizeDef, -⟩ := emit_ok hin hsizeRun
  obtain ⟨hcont₂, halignDef, -⟩ := emit_ok hcont₁.inside halignRun
  obtain ⟨hcont₃, callee, hlookup, haddressDef⟩ := callSupport_continues hcont₂.inside hcall
  obtain ⟨on₁, -⟩ := (GoesOn.emit _ s hs).ok hsizeRun
  obtain ⟨on₂, -⟩ := (GoesOn.emit _ s₁ on₁.described).ok halignRun
  obtain ⟨on₃, -⟩ := (GoesOn.callSupport _ _ s₂ on₂.described).ok hcall
  obtain ⟨f, hf, hname⟩ := on₃.described.named hlookup
  have allocated : s₃.Allocates address sd :=
    ⟨callee, f, size, align, hf, hname, haddressDef,
      hsize ▸ hcont₃.kept (hcont₂.kept hsizeDef), halign ▸ hcont₃.kept halignDef⟩
  have onward : s.Onward env.program s₃ := (on₁.trans on₂).trans on₃
  have hframe : s₃.frame.function = s.frame.function :=
    congrArg Frame.function ((hcont₁.trans hcont₂).trans hcont₃).frame
  cases hconstructor : d.constructor with
  | none =>
    rw [hconstructor] at h
    cases signature with
    | some signature => cases h
    | none =>
      dsimp only at h
      split at h
      · cases h
      · cases h
        exact ⟨address, rfl, allocated, onward, hframe⟩
  | some constructor =>
    rw [hconstructor] at h
    cases signature with
    | none => cases h
    | some signature =>
      obtain ⟨r, s₄, hrun, hv⟩ := bind_ok h
      cases hv
      obtain ⟨on₄, hframe₄⟩ :=
        (emitCall_goesOn env depth signature (some address) args span s₃ on₃.described).ok hrun
      exact ⟨address, rfl, allocated.later on₄.retains hframe₄, onward.trans on₄,
        hframe₄.trans hframe⟩

/-- What `new` of a class does: the class has a descriptor then, and the instance lies in memory that
was requested for the struct of this descriptor. -/
theorem constructObject_allocates (hs : s.unit.Described env.program) (hin : s.Inside)
    (h : constructObject (Gen.generate depth) (.object cls name) args signature span env s = .ok v t) :
    ∃ d sd address, v = .object (.instanceAt d address) ∧ t.LaysOut cls d sd ∧
      t.Allocates address sd ∧ s.Onward env.program t := by
  obtain ⟨d, s₁, hdescriptor, hnew⟩ := bind_ok h
  have hquiet := (Trackable.descriptor_quiet s cls).ok hdescriptor
  have onward : s.Onward env.program s₁ := ⟨hs.of_quiet hquiet, .of_quiet hquiet⟩
  have hin₁ : s₁.Inside := by
    obtain ⟨f, hf⟩ := hin
    exact ⟨f, by rw [hquiet.toAlike.frame, hquiet.toAlike.function?, hf]⟩
  obtain ⟨sd, hsd⟩ := s₁.exists_laysOut onward.described (descriptor_enters hdescriptor)
  obtain ⟨address, hv, halloc, on, -⟩ :=
    classNew_allocates onward.described hin₁ hsd.size hsd.align hnew
  exact ⟨d, sd, address, hv, hsd.later on.retains, halloc, onward.trans on⟩

/-- **Instances fit their memory.** Struct layouts are sound and tight, whatever the fields are. In every
state that compilation gets to, a successful `new` of a class yields an instance in memory that was
requested with the size and the alignment of a struct of the module; and then and ever after the
members of objects of the class are fields of this struct, read and written at their addresses in it. -/
theorem class_layouts_sound (env : Env) :
    (∀ sd : StructDef, sd.Laid) ∧
    (∀ config registry, (Compiler.new env.program config registry).unit.Described env.program) ∧
    (∀ (c : Compiler) (func : FuncId), c.unit.Described c.env.program →
      (c.compileEntry func).2.unit.Described c.env.program ∧
        c.unit.Retains (c.compileEntry func).2.unit) ∧
    (∀ depth n, GoesOn env (Gen.generate depth n)) ∧
    (∀ {s : GenState}, s.unit.Described env.program → s.Inside →
      ∀ {depth cls name args signature span v t},
      constructObject (Gen.generate depth) (.object cls name) args signature span env s = .ok v t →
      ∃ d sd address, v = .object (.instanceAt d address) ∧ t.LaysOut cls d sd ∧
        t.Allocates address sd ∧ t.unit.Described env.program ∧
        ∀ u : GenState, t.unit.Retains u.unit → u.LaysOut cls d sd ∧ Accesses env u cls d sd) ∧
    ∀ {s : GenState}, s.Inside → ∀ object struct i lowered type span,
      let place : Assignable := ⟨.field object struct i lowered, type⟩
      (∀ x t, load place span env s = .ok x t → ∃ ptr,
        t.definition? ptr = some (.fieldPtr object struct i) ∧
          t.definition? x = some (.load lowered ptr)) ∧
      ∀ x t, store place x span env s = .ok () t → ∃ ptr y,
        t.definition? ptr = some (.fieldPtr object struct i) ∧
          t.definition? y = some (.store x ptr) := by
  refine ⟨StructDef.laid, fun config _ => .new env.program config.moduleName,
    fun c func hc => Compiler.compileEntry_described hc func, generate_goesOn env, ?_, ?_⟩
  · intro s hs hin depth cls name args signature span v t hrun
    obtain ⟨d, sd, address, hv, hlaid, halloc, on⟩ := constructObject_allocates hs hin hrun
    refine ⟨d, sd, address, hv, hlaid, halloc, on.described, fun u hu => ?_⟩
    exact ⟨hlaid.later hu, accesses_of_laysOut (hlaid.later hu)⟩
  · intro s hin object struct i lowered type span
    exact ⟨fun x t => load_field hin, fun x t => store_field hin⟩

/-- A program with a class of a flag, a number and an integer. -/
def mixedProgram : Program where
  classes := #[{
    name := "Mixed"
    fields := [⟨"flag", .boolean, .dummy⟩, ⟨"value", .number, .dummy⟩, ⟨"count", .int, .dummy⟩] }]

/-- A state in a function of a program for which nothing has been generated yet. -/
def inFunctionBody : GenState :=
  let f := (Function.shell "f" [] .void .internal).addBlock "entry"
  { unit := { module := ({ name := "m" } : Module).addFunction f }
    frame := { Frame.outside with function := ⟨0⟩, block := ⟨0⟩ } }

/-- An instance of this class lies in 24 bytes, and its second field is found in it. -/
theorem class_layouts_sound_mixed :
    let env : Env := ⟨mixedProgram, {}, .standard⟩
    ∃ t o sd address layout,
      constructObject (Gen.generate 0) (.object ⟨0⟩ "Mixed") [] none .dummy env inFunctionBody =
        .ok (.object o) t ∧
      t.Allocates address sd ∧ sd.size = 24 ∧ sd.offsets = [0, 8, 16] ∧
      getField o "value" .dummy env t =
        .ok (.assignable ⟨.field address layout 1 .f64, .number⟩) t := by
  intro env
  obtain ⟨-, -, -, -, hnew, -⟩ := class_layouts_sound env
  have hs : inFunctionBody.unit.Described env.program :=
    (UnitState.Described.new env.program "m").addFunction _ rfl rfl
  have hrun : constructObject (Gen.generate 0) (.object ⟨0⟩ "Mixed") [] none .dummy env inFunctionBody =
    .ok (.object (.instanceAt _ _)) _ := rfl
  obtain ⟨d, sd, address, hv, hlaid, halloc, -⟩ := hnew hs ⟨_, rfl⟩ hrun
  cases hv
  have hfields : sd.fields = [.i1, .f64, .i32] := hlaid.fields
  refine ⟨_, _, sd, _, _, hrun, halloc, ?_, ?_, rfl⟩
  · rw [StructDef.size, StructDef.align, hfields]
    decide
  · rw [StructDef.offsets, hfields]
    decide

end Gen

end TypedLowering
