import TypedLowering.Lowering.Conversion
import TypedLowering.Proofs.Flow.Completion
import TypedLowering.Proofs.Options.Access

/-!
The table of conversions. Between the types of data a value becomes one of another type in the ways
that `StaticType.Widens` and `StaticType.Casts` list, and in no other. A conversion that is listed
always succeeds and leaves an operand of the low-level type of its target; one that is not is refused
before any code is generated.

Main definitions:

- `StaticType.Widens`, `StaticType.Casts`: what converts without being asked for, and by a cast;
- `GenState.Convertible`: where conversions take place;
- `Gen.Operable`: values whose operand has the low-level type of their static type.

Main result: `Gen.convert_table`.
-/
namespace TypedLowering
set_option autoImplicit false
open Ssa

/-! ## The table -/

namespace StaticType

/-- The types of data: primitives, instances of a class of the program whose fields all hold values,
arrays, and nullables of these, but no nullable directly under another. -/
def IsData (p : Program) : StaticType → Prop
  | .int | .number | .boolean => True
  | .object cls name => ∃ decl, p.class? cls = some decl ∧ decl.name = name ∧
      (∀ f ∈ decl.fields, ∃ t, f.type.lowered f.span = .ok t ∧ t ≠ .void) ∧
      ∀ m ∈ decl.methods.toList, ∃ d, p.function? m = some d
  | .array t => t.IsData p
  | .nullable t => t.isNullable = false ∧ t.IsData p
  | .void | .builtin _ | .param _ => False

/-- What converts to what without being asked for. -/
def Widens (s t : StaticType) : Prop :=
  s = t ∨ (s = .int ∧ t = .number) ∨
    ∃ u, t = .nullable u ∧ s.isNullable = false ∧ (s = u ∨ s = .int ∧ u = .number)

/-- The conversions between primitives that have to be asked for. -/
def Narrows (s t : StaticType) : Prop :=
  (s = .number ∧ t = .int) ∨ (s = .boolean ∧ t = .int) ∨ (s = .int ∧ t = .boolean)

/-- What an explicit cast converts. -/
def Casts (s t : StaticType) : Prop :=
  s.Widens t ∨ s.Narrows t ∨ (∃ u, t = .nullable u ∧ s.isNullable = false ∧ s.Narrows u) ∨
    s = .nullable t

/-- What converts in a way of asking for it. -/
def Converts (explicit : Bool) (s t : StaticType) : Prop :=
  if explicit then s.Casts t else s.Widens t

theorem IsData.lowered {p : Program} {t : StaticType} (h : t.IsData p) (span : Span) :
    ∃ ty, t.lowered span = .ok ty ∧ ty ≠ .void ∧ ty ≠ .i64 := by
  cases t with
  | void | builtin _ | param _ => exact h.elim
  | _ => exact ⟨_, rfl, by simp, by simp⟩

theorem Converts.refl (explicit : Bool) (t : StaticType) : t.Converts explicit t := by
  cases explicit with
  | false => exact .inl rfl
  | true => exact .inl (.inl rfl)

/-- What becomes another type that is no nullable. -/
theorem converts_plain {explicit : Bool} {s t : StaticType} (ht : t.isNullable = false)
    (hne : s ≠ t) : s.Converts explicit t ↔
      (s = .int ∧ t = .number) ∨ explicit = true ∧ (s.Narrows t ∨ s = .nullable t) := by
  have ht' (u : StaticType) : t ≠ .nullable u := by
    rintro rfl
    cases ht
  cases explicit <;> simp [Converts, Casts, Widens, hne, ht']

/-- A value that may be missing converts from what is not missing as what is in it does. -/
theorem converts_nullable {explicit : Bool} {s u : StaticType} (hs : s.isNullable = false)
    (hu : u.isNullable = false) : s.Converts explicit (.nullable u) ↔ s.Converts explicit u := by
  have hne (t : StaticType) : s ≠ .nullable t := by
    rintro rfl
    cases hs
  have hne' (t : StaticType) : u ≠ .nullable t := by
    rintro rfl
    cases hu
  cases explicit <;> simp [Converts, Casts, Widens, Narrows, hs, hne, hne']

/-- One nullable converts to no other. -/
theorem not_converts_nullable {explicit : Bool} {s u : StaticType} (hs : s.isNullable = false)
    (hne : s ≠ u) : ¬ StaticType.Converts explicit (.nullable s) (.nullable u) := by
  have hs' : s ≠ .nullable u := by
    rintro rfl
    cases hs
  cases explicit <;> simp [Converts, Casts, Widens, Narrows, isNullable, hne, hs']

end StaticType

/-! ## Where conversions take place -/

namespace SupportFunction

/-- The name of a boxing function is that of no other function of the library. -/
theorem eq_box_of_symbol {f : SupportFunction} {t : Ty} (h : f.symbol = (box t).symbol) :
    f = .box t := by
  obtain ⟨hstem, hending⟩ := stem_eq h
  cases f with
  | box u => cases t <;> cases u <;> first | rfl | exact absurd hending (by decide)
  | _ => simp [stem] at hstem

end SupportFunction

/-- The names of the boxing functions are free or bound to the declarations of these. -/
structure Ssa.Module.SparesBoxes (m : Module) : Prop where
  bound : ∀ {t id}, m.lookup (SupportFunction.box t).symbol = some id →
    ∃ f, m.function? id = some f ∧ f.heading = (SupportFunction.box t).heading

namespace Ssa.Module.SparesBoxes

variable {m m' : Module} {id : FunctionId} {f : Function} {g : Function → Function}

theorem of_eq (h : m.SparesBoxes) (hf : m'.functions = m.functions) (hs : m'.symbols = m.symbols) :
    m'.SparesBoxes where
  bound := fun {t id} hl => by
    unfold function?
    rw [hf]
    exact h.bound (t := t) (by rw [← hl, lookup, lookup, hs])

theorem modifyFunction (h : m.SparesBoxes) (hg : ∀ f, (g f).heading = f.heading) :
    (m.modifyFunction id g).SparesBoxes where
  bound := fun {t id'} hl => by
    obtain ⟨f, hf, hh⟩ := h.bound (show m.lookup _ = some id' from hl)
    rw [m.function?_modifyFunction, hf]
    split
    · exact ⟨g f, rfl, (hg f).trans hh⟩
    · exact ⟨f, rfl, hh⟩

theorem addFunction (h : m.SparesBoxes)
    (hf : ∀ t, f.name = (SupportFunction.box t).symbol → f.heading = (SupportFunction.box t).heading) :
    (m.addFunction f).SparesBoxes where
  bound := fun {t id} hl => by
    by_cases hname : f.name = (SupportFunction.box t).symbol
    · rw [← hname, m.lookup_addFunction_self f] at hl
      cases hl
      exact ⟨f, m.function?_addFunction_next f, hf t hname⟩
    · rw [lookup, Module.addFunction, Dict.get?_insert_of_ne _ _ hname] at hl
      obtain ⟨k, hk, hh⟩ := h.bound hl
      exact ⟨k, by rw [m.function?_addFunction_of_ne (ne_nextFunction hk), hk], hh⟩

end Ssa.Module.SparesBoxes

/-- Boxing functions can be declared, and the descriptors in the table are those of the classes. -/
structure UnitState.Supplied (p : Program) (u : UnitState) : Prop where
  boxes : u.module.SparesBoxes
  descriptors : ∀ {cls d}, u.descriptors.get? cls = some d →
    ∃ decl, p.class? cls = some decl ∧ d.type = .object cls decl.name

namespace UnitState.Supplied

variable {p : Program} {s s' : GenState}

theorem new (p : Program) (name : String) : { module := { name } : UnitState }.Supplied p :=
  ⟨⟨fun h => by cases h⟩, fun h => by cases h⟩

theorem mapFunction (h : s.unit.Supplied p) {g : Function → Function}
    (hg : ∀ f, (g f).heading = f.heading) : (s.mapFunction g).unit.Supplied p :=
  ⟨h.boxes.modifyFunction hg, h.descriptors⟩

theorem of_quiet (h : s.unit.Supplied p) (hq : s.Quiet p s') : s'.unit.Supplied p := by
  refine ⟨h.boxes.of_eq hq.toAlike.functions hq.toAlike.symbols, ?_⟩
  cases hq with
  | @descriptor cls decl fields methods hdecl =>
    intro other d hd
    by_cases hcls : cls = other
    · subst hcls
      cases (Dict.get?_insert_self _ _ _).symm.trans hd
      exact ⟨decl, hdecl, rfl⟩
    · exact h.descriptors ((Dict.get?_insert_of_ne _ _ hcls).symm.trans hd)
  | _ => exact h.descriptors

end UnitState.Supplied

/-- A state in which values can be converted: inside a function, in a block without an end. -/
structure GenState.Convertible (p : Program) (s : GenState) : Prop where
  isOpen : s.Open
  supplied : s.unit.Supplied p

/-- The type of an operand of the current function. -/
def GenState.operandType (s : GenState) (x : ValueId) : Ty := s.query .void fun f => f.valueType x

namespace Gen

variable {α β : Type} {env : Env} {span : Span} {s t : GenState} {v : Value} {m : Gen α}

/-- A value that has an operand, and that at the low-level type of its static type. -/
def Operable (env : Env) (s : GenState) (v : Value) (span : Span) : Prop :=
  ∃ x t, operand v span env s = .ok x t ∧ v.type.lowered span = .ok (t.operandType x)

/-! ## What reading a value leaves alone -/

/-- A step that leaves the unit supplied. -/
abbrev KeepsSupplied (env : Env) (m : Gen α) : Prop :=
  Upholds env (fun s => s.unit.Supplied env.program) (fun _ _ => True) α m

namespace KeepsSupplied

protected theorem bind {f : α → Gen β} (hm : KeepsSupplied env m) (hf : ∀ a, KeepsSupplied env (f a)) :
    KeepsSupplied env (m >>= f) := fun s hs => (hm s hs).bind fun a t _ ht => hf a t ht

protected theorem pure (a : α) : KeepsSupplied env (pure a) := fun _ hs => hs

protected theorem fail {cause : Cause} : KeepsSupplied env (fail cause span : Gen α) :=
  fun _ _ => trivial

theorem emit (d : Definition) : KeepsSupplied env (Gen.emit d) := fun s hs =>
  .emit (Q := fun _ t => t.unit.Supplied env.program)
    (hs.mapFunction (g := fun f => f.append s.frame.block d) fun _ => rfl) trivial

theorem callFunction (callee : FunctionId) (args : List ValueId) (attrs : Attributes) :
    KeepsSupplied env (Gen.callFunction callee args attrs) := fun s hs => .read rfl (emit _ s hs)

theorem arrayHeader : KeepsSupplied env Gen.arrayHeader := fun s hs =>
  .mono (Trackable.arrayHeader_quiet s) (fun _ _ => hs.of_quiet) fun _ _ _ => trivial

/-- A function can be declared whose name is not that of a boxing function. -/
theorem declareExternal {name : String} {params : List Ty} {ret : Ty} {variadic : Bool}
    (hname : ∀ t, name = (SupportFunction.box t).symbol →
      (name, params, ret, variadic, true) = (SupportFunction.box t).heading) (attrs : Attributes) :
    KeepsSupplied env (Gen.declareExternal name params ret attrs variadic span) := by
  intro s hs
  refine .read rfl ?_
  split
  · next id m hd =>
    rcases Module.declare_cases hd with ⟨-, rfl, rfl⟩ | ⟨-, rfl, -⟩
    · exact .of_ok rfl ⟨hs.boxes.addFunction hname, hs.descriptors⟩
    · exact .of_ok rfl ⟨hs.boxes, hs.descriptors⟩
  · exact .of_error rfl trivial

theorem declareSupport (f : SupportFunction) : KeepsSupplied env
    (Gen.declareExternal f.symbol f.params f.ret f.attributes f.variadic span) :=
  declareExternal (fun _ ht => by cases SupportFunction.eq_box_of_symbol ht; rfl) _

theorem callSupport (f : SupportFunction) (args : List ValueId) :
    KeepsSupplied env (Gen.callSupport f args span) :=
  callSupport_of (P := fun _ => KeepsSupplied env) .bind (declareSupport f)
    (fun _ hs => .of_ok rfl ⟨hs.boxes, hs.descriptors⟩) emit args

theorem load (a : Assignable) : KeepsSupplied env (Gen.load a span) := by
  unfold Gen.load
  split
  · exact emit _
  · exact (emit _).bind fun _ => emit _
  · unfold loadElement
    refine KeepsSupplied.bind (fun s hs => .of_ok (a := env.config) rfl hs) fun c => ?_
    split
    · exact callSupport _ _
    · refine KeepsSupplied.bind ?_ fun _ => emit _
      exact arrayHeader.bind fun _ => (emit _).bind fun _ => (emit _).bind fun _ => emit _

theorem operand (v : Value) : KeepsSupplied env (Gen.operand v span) := by
  unfold Gen.operand
  split
  · exact .fail
  · exact .pure _
  · exact load _
  · unfold objectOperand
    split
    · exact .pure _
    · exact emit _

end KeepsSupplied

/-- Values can still be converted after one has been read. -/
theorem operand_convertible (hs : s.Convertible env.program) {x : ValueId}
    (h : operand v span env s = .ok x t) : t.Convertible env.program :=
  ⟨(((linear_flows env).operand v span s hs.isOpen).ok h).2, (KeepsSupplied.operand v s hs.supplied).ok h⟩

/-! ## Steps of conversions -/

/-- A step that always comes to an operand of a low-level type. -/
def Gives (env : Env) (s : GenState) (m : Gen ValueId) (ty : Ty) : Prop :=
  ∃ x t, m env s = .ok x t ∧ t.operandType x = ty ∧ t.Convertible env.program

/-- A step that always comes to a value of a static type. -/
def Produces (env : Env) (s : GenState) (m : Gen Value) (span : Span) (type : StaticType) : Prop :=
  ∃ r t, m env s = .ok r t ∧ r.type = type ∧ Operable env t r span ∧ t.Convertible env.program

/-- A step that is refused as an operation that does not exist, before anything has been done. -/
def Refuses (env : Env) (s : GenState) (m : Gen α) (span : Span) : Prop :=
  ∃ op type, m env s = .error (.reported ⟨.unsupportedOperation op type, span⟩) s

section Steps

variable {type : StaticType} {ty : Ty} {x : ValueId}

theorem emit_gives (hs : s.Convertible env.program) (d : Definition) :
    Gives env s (emit d) d.type := by
  obtain ⟨f, hf, -⟩ := hs.isOpen
  have hrun := emit_run env hs.isOpen d
  refine ⟨_, _, hrun, ?_, (((linear_flows env).emit d s hs.isOpen).ok hrun).2,
    (KeepsSupplied.emit d s hs.supplied).ok hrun⟩
  have hf' := s.function?_mapFunction hf fun f => f.append s.frame.block d
  rw [GenState.operandType, GenState.query_eq _ hf', GenState.query_eq _ hf,
    Function.valueType_append_next]

/-- A boxing function can be called. -/
theorem box_gives (hs : s.Convertible env.program) (ty : Ty) (args : List ValueId) :
    Gives env s (callSupport (.box ty) args span) .ptr := by
  let f : SupportFunction := .box ty
  obtain ⟨callee, m, hd⟩ : ∃ callee m, s.unit.module.declare f.symbol f.params f.ret f.attributes
      f.variadic = .ok (callee, m) := by
    cases hl : s.unit.module.lookup f.symbol with
    | none =>
      obtain ⟨k, hd, -⟩ := Module.declare_new f.params f.ret f.attributes f.variadic hl
      exact ⟨_, _, hd⟩
    | some id =>
      obtain ⟨k, hk, hh⟩ := hs.supplied.boxes.bound hl
      exact ⟨_, _, Module.declare_known hl hk hh⟩
  have hrun : declareExternal f.symbol f.params f.ret f.attributes f.variadic span env s =
      .ok callee { s with unit := { s.unit with module := m } } := by
    rw [declareExternal, run_get, hd]
    rfl
  have hopen := (((linear_flows env).declare f.symbol f.params f.ret f.attributes f.variadic span s
    hs.isOpen).ok hrun).2
  have hsupplied := (KeepsSupplied.declareSupport f s hs.supplied).ok hrun
  have hcall : callSupport f args span env s = emit (.call callee f.ret args .none) env
      { s with unit := { s.unit with module := m, gcRequired := true } } := by
    unfold callSupport
    rw [run_bind, hrun]
    rfl
  have ready : { s with unit := { s.unit with module := m, gcRequired := true } }.Convertible
      env.program := ⟨hopen, hsupplied.boxes, hsupplied.descriptors⟩
  obtain ⟨x, t, hx, htype, ht⟩ := emit_gives ready (.call callee f.ret args .none)
  exact ⟨x, t, hcall.trans hx, htype, ht⟩

theorem Produces.of_gives {m : Gen ValueId} (h : Gives env s m ty) (ht : type.lowered span = .ok ty) :
    Produces env s (do return .rvalue (← m) type) span type := by
  obtain ⟨x, t, hm, hx, hs⟩ := h
  refine ⟨.rvalue x type, t, ?_, rfl, ⟨x, t, rfl, ?_⟩, hs⟩
  · rw [run_bind, hm]
    rfl
  · rw [hx]
    exact ht

/-- A first step with a known result. -/
theorem Produces.after {m : Gen α} {f : α → Gen Value} {a : α} (hm : m env s = .ok a t)
    (h : Produces env t (f a) span type) : Produces env s (m >>= f) span type := by
  obtain ⟨r, t', hr, h⟩ := h
  exact ⟨r, t', (run_bind_of_ok hm).trans hr, h⟩

theorem layout_run (ht : type.lowered span = .ok ty) (s : GenState) :
    layout type span env s = .ok ty s := by
  rw [layout, ht]
  rfl

/-- A step on the operand of a value. -/
theorem Produces.of_operand {m : ValueId → Gen Value} (hs : s.Convertible env.program)
    (hv : Operable env s v span) (hm : ∀ x t, t.Convertible env.program →
      v.type.lowered span = .ok (t.operandType x) → Produces env t (m x) span type) :
    Produces env s (do m (← operand v span)) span type := by
  obtain ⟨x, t, hx, hty⟩ := hv
  exact .after hx (hm x t (operand_convertible hs hx) hty)

/-! ### Objects -/

theorem descriptor_delivers (hs : s.Convertible env.program) {cls : ClassId} {name : String}
    (ht : (StaticType.object cls name).IsData env.program) :
    ∃ d t, descriptor cls env s = .ok d t ∧ d.type = .object cls name ∧
      (∀ x, t.operandType x = s.operandType x) ∧ t.Convertible env.program := by
  obtain ⟨decl, hdecl, rfl, hfields, hmethods⟩ := ht
  rw [descriptor_run]
  cases hd : s.unit.descriptors.get? cls with
  | some d =>
    obtain ⟨decl', hdecl', htype⟩ := hs.supplied.descriptors hd
    cases hdecl.symm.trans hdecl'
    exact ⟨d, s, rfl, htype, fun _ => rfl, hs⟩
  | none =>
    obtain ⟨fields, hf⟩ : ∃ fields, decl.fieldInfos = .ok fields :=
      except_mapM_exists fun f hf => by
        obtain ⟨t, ht, -⟩ := hfields f hf
        exact ⟨⟨f.name, f.type, t⟩, by rw [ht]⟩
    obtain ⟨methods, hm⟩ : ∃ methods, env.program.methodNames decl = .ok methods :=
      except_mapM_exists fun m hm => by
        obtain ⟨d, hd⟩ := hmethods m hm
        exact ⟨(d.name, m), by rw [hd]⟩
    dsimp only
    rw [buildDescriptor_run, hdecl]
    dsimp only
    rw [hf]
    dsimp only
    rw [hm]
    exact ⟨_, _, rfl, rfl, fun _ => rfl, hs.isOpen,
      hs.supplied.of_quiet (.descriptor hdecl hf hm hd)⟩

/-- Arrays of data can be laid out. -/
theorem layout_of_isData (span : Span) {t : StaticType} (h : (StaticType.array t).IsData env.program) :
    ∃ l, ArrayLayout.of (.array t) span = .ok l ∧ l.element = t := by
  cases t with
  | void | builtin _ | param _ => exact h.elim
  | _ => exact ⟨_, rfl, rfl⟩

theorem valueOf_delivers (hs : s.Convertible env.program) (ht : type.IsData env.program)
    (hx : type.lowered span = .ok (s.operandType x)) :
    Produces env s (valueOf x type span) span type := by
  -- an object at the address
  have object {o : ObjectRef} {t : GenState} (hrun : objectAt x type span env s = .ok o t)
      (ho : o.address = some x) (htype : o.type = type) (hsame : t.operandType x = s.operandType x)
      (ht : t.Convertible env.program) :
      Produces env s (do return .object (← objectAt x type span)) span type := by
    refine ⟨.object o, t, run_bind_of_ok hrun, htype, ⟨x, t, ?_, ?_⟩, ht⟩
    · rw [operand, objectOperand, ho]
      rfl
    · rw [hsame, ← hx, ← htype]
      rfl
  cases type with
  | void | builtin _ | param _ => exact ht.elim
  | object cls name =>
    obtain ⟨d, t, hd, htype, hsame, ht'⟩ := descriptor_delivers hs ht
    exact object (run_bind_of_ok hd) rfl htype (hsame x) ht'
  | array e =>
    obtain ⟨l, hl, rfl⟩ := layout_of_isData span ht
    exact object (o := .arrayAt l x) (t := s) (by rw [objectAt, hl]; rfl) rfl rfl rfl hs
  | _ => exact ⟨.rvalue x _, s, rfl, rfl, ⟨x, s, rfl, hx⟩, hs⟩

/-! ### Nullables -/

theorem boxValue_delivers {u : StaticType} (hs : s.Convertible env.program)
    (ht : v.type.IsData env.program) (hv : Operable env s v span) :
    Produces env s (boxValue v (.nullable u) span) span (.nullable u) := by
  obtain ⟨ty, hty, hvoid, hlong⟩ := ht.lowered span
  refine .after (layout_run hty s) (.of_operand hs hv fun x t hst hx => ?_)
  cases ty with
  | void => exact absurd rfl hvoid
  | i64 => exact absurd rfl hlong
  | ptr => exact ⟨.rvalue x _, t, rfl, rfl, ⟨x, t, rfl, hty.symm.trans hx⟩, hst⟩
  | _ => exact .of_gives (box_gives hst _ _) rfl

theorem unboxValue_delivers (hs : s.Convertible env.program) (ht : type.IsData env.program)
    (hv : Operable env s v span) (htype : v.type = .nullable type) :
    Produces env s (unboxValue v type span) span type := by
  obtain ⟨ty, hty, -⟩ := ht.lowered span
  refine .after (layout_run hty s) (.of_operand hs hv fun x t hst hx => ?_)
  have payload : Produces env t (do valueOf (← emit (.load ty x)) type span) span type := by
    obtain ⟨y, t', hy, hty', hst'⟩ := emit_gives hst (.load ty x)
    exact .after hy (valueOf_delivers hst' ht (by rw [hty', hty]; rfl))
  cases ty with
  | ptr =>
    rw [htype] at hx
    exact valueOf_delivers hst ht (hty.trans hx)
  | _ => exact payload

end Steps

/-! ## Conversions -/

section Conversions

variable {explicit : Bool} {type : StaticType} {toInner : Gen Value}

theorem Refuses.noConversion {source target : StaticType} :
    Refuses env s (noConversion explicit source target span : Gen α) span := ⟨_, _, rfl⟩

/-- Conversions to another type that is no nullable, as far as there are any. -/
theorem convertFrom_delivers (hs : s.Convertible env.program) (hv : Operable env s v span)
    (htarget : type.IsData env.program) (h : (v.type = .int ∧ type = .number) ∨
      explicit = true ∧ (v.type.Narrows type ∨ v.type = .nullable type)) :
    Produces env s (convertFrom explicit v span toInner type) span type := by
  rcases h with ⟨hv', rfl⟩ | ⟨rfl, (⟨hv', rfl⟩ | ⟨hv', rfl⟩ | ⟨hv', rfl⟩) | hv'⟩
  · unfold convertFrom
    rw [hv']
    exact .of_operand hs hv fun x t hst _ => .of_gives (emit_gives hst (.cast .sitofp x .f64)) rfl
  · unfold convertFrom
    rw [hv']
    exact .of_operand hs hv fun x t hst _ => .of_gives (emit_gives hst (.cast .fptosi x .i32)) rfl
  · unfold convertFrom
    rw [hv']
    exact .of_operand hs hv fun x t hst _ => .of_gives (emit_gives hst (.cast .zext x .i32)) rfl
  · unfold convertFrom
    rw [hv']
    refine .of_operand hs hv fun x t hst _ => ?_
    obtain ⟨zero, t', hzero, -, hst'⟩ := emit_gives hst (.const (.i32 0))
    exact .after hzero (.of_gives (emit_gives hst' (.icmp .ne x zero)) rfl)
  · have hrun : convertFrom true v span toInner type = unboxValue v type span := by
      unfold convertFrom
      rw [hv']
      simp
    rw [hrun]
    exact unboxValue_delivers hs htarget hv hv'

/-- There are no others. -/
theorem convertFrom_refuses (hplain : type.isNullable = false) (h : ¬ ((v.type = .int ∧ type = .number) ∨
      explicit = true ∧ (v.type.Narrows type ∨ v.type = .nullable type))) :
    Refuses env s (convertFrom explicit v span toInner type) span := by
  unfold convertFrom
  split
  · next hs => exact absurd (.inl ⟨hs, rfl⟩) h
  · next hs =>
    rw [if_neg fun he => h (.inr ⟨he, .inl (.inl ⟨hs, rfl⟩)⟩)]
    exact .noConversion
  · next hs =>
    rw [if_neg fun he => h (.inr ⟨he, .inl (.inr (.inl ⟨hs, rfl⟩))⟩)]
    exact .noConversion
  · next hs =>
    rw [if_neg fun he => h (.inr ⟨he, .inl (.inr (.inr ⟨hs, rfl⟩))⟩)]
    exact .noConversion
  · next inner hs =>
    rw [if_neg fun he => ?_]
    · exact .noConversion
    · simp only [Bool.and_eq_true, decide_eq_true_eq] at he
      exact h (.inr ⟨he.1, .inr (he.2 ▸ hs)⟩)
  · cases hplain
  · exact .noConversion

/-- Conversions to a type that is no nullable. -/
theorem convert_plain (explicit : Bool) (hs : s.Convertible env.program) (hv : Operable env s v span)
    (htarget : type.IsData env.program) (hplain : type.isNullable = false) :
    (v.type.Converts explicit type → Produces env s (convert explicit v span type) span type) ∧
      (¬ v.type.Converts explicit type → Refuses env s (convert explicit v span type) span) := by
  by_cases hsame : v.type = type
  · rw [convert_self hsame]
    exact ⟨fun _ => ⟨v, s, rfl, hsame, hv, hs⟩, fun h => absurd (hsame ▸ .refl explicit type) h⟩
  have hfrom : convert explicit v span type = convertFrom explicit v span (pure v) type := by
    cases type <;> simp_all [convert, StaticType.isNullable]
  rw [hfrom, StaticType.converts_plain hplain hsame]
  exact ⟨convertFrom_delivers hs hv htarget, convertFrom_refuses hplain⟩

/-- Conversions to a nullable type, from one that is not missing. -/
theorem convert_nullable {u : StaticType} (hs : s.Convertible env.program)
    (hv : Operable env s v span) (htarget : (StaticType.nullable u).IsData env.program)
    (hplain : v.type.isNullable = false) :
    (v.type.Converts explicit (.nullable u) →
      Produces env s (convert explicit v span (.nullable u)) span (.nullable u)) ∧
    (¬ v.type.Converts explicit (.nullable u) →
      Refuses env s (convert explicit v span (.nullable u)) span) := by
  have hrun : convert explicit v span (.nullable u) =
      (do boxValue (← convert explicit v span u) (.nullable u) span) := by
    have hne : v.type ≠ .nullable u := by
      intro h
      rw [h] at hplain
      cases hplain
    rw [convert, if_neg hne]
    unfold convertFrom
    cases htype : v.type with
    | nullable w =>
      rw [htype] at hplain
      cases hplain
    | _ => rfl
  rw [hrun, StaticType.converts_nullable hplain htarget.1]
  obtain ⟨hyes, hno⟩ := convert_plain explicit hs hv htarget.2 htarget.1
  refine ⟨fun h => ?_, fun h => ?_⟩
  · obtain ⟨r, t, hr, htype, hop, ht⟩ := hyes h
    refine .after hr (boxValue_delivers ht ?_ hop)
    rw [htype]
    exact htarget.2
  · obtain ⟨op, name, he⟩ := hno h
    exact ⟨op, name, by rw [run_bind, he]⟩

/-- A conversion that is listed gives a value of its target; any other is refused. -/
theorem convert_outcome (explicit : Bool) (hs : s.Convertible env.program) (hv : Operable env s v span)
    (hsource : v.type.IsData env.program) (htarget : type.IsData env.program) :
    (v.type.Converts explicit type → Produces env s (convert explicit v span type) span type) ∧
      (¬ v.type.Converts explicit type → Refuses env s (convert explicit v span type) span) := by
  cases type with
  | void | builtin _ | param _ => exact htarget.elim
  | int | number | boolean | array _ | object _ _ => exact convert_plain explicit hs hv htarget rfl
  | nullable u =>
    cases htype : v.type with
    | nullable w =>
      by_cases hsame : w = u
      · subst hsame
        rw [convert_self htype]
        exact ⟨fun _ => ⟨v, s, rfl, htype, hv, hs⟩, fun h => absurd (.refl explicit _) h⟩
      · rw [htype] at hsource
        refine ⟨fun h => absurd h (StaticType.not_converts_nullable hsource.1 hsame), fun _ => ?_⟩
        have hw : w ≠ .nullable u := by
          rintro rfl
          cases hsource.1
        rw [convert, htype, if_neg (by simpa using hsame)]
        unfold convertFrom
        rw [htype]
        dsimp only
        rw [if_neg (by simp [hw])]
        exact .noConversion
    | _ =>
      rw [← htype]
      exact convert_nullable hs hv htarget (by rw [htype]; rfl)

/-- **The table of conversions.** Between types of data exactly the conversions that are listed
succeed. The value they give has the target as its static type, and an operand of the low-level type
of it; a value that has the type already stays as it is, without any code. A conversion that is not
listed is an unsupported operation, and leaves the state alone. -/
theorem cast_table (hs : s.Convertible env.program) (hv : Operable env s v span)
    (hsource : v.type.IsData env.program) (htarget : type.IsData env.program) :
    (succeeds (castImplicit v type span) env s = true ↔ v.type.Widens type) ∧
      (succeeds (castExplicit v type span) env s = true ↔ v.type.Casts type) ∧
      ∀ cast ∈ [castImplicit, castExplicit],
        (∀ r t, cast v type span env s = .ok r t → r.type = type ∧ Operable env t r span) ∧
        (v.type = type → cast v type span env s = .ok v s) ∧
        ∀ e t, cast v type span env s = .error e t →
          t = s ∧ ∃ op name, e = .reported ⟨.unsupportedOperation op name, span⟩ := by
  have table (explicit : Bool) :
      (succeeds (convert explicit v span type) env s = true ↔ v.type.Converts explicit type) ∧
      (∀ r t, convert explicit v span type env s = .ok r t → r.type = type ∧ Operable env t r span) ∧
      (v.type = type → convert explicit v span type env s = .ok v s) ∧
      ∀ e t, convert explicit v span type env s = .error e t →
        t = s ∧ ∃ op name, e = .reported ⟨.unsupportedOperation op name, span⟩ := by
    obtain ⟨hyes, hno⟩ := convert_outcome explicit hs hv hsource htarget
    have hself (h : v.type = type) : convert explicit v span type env s = .ok v s := by
      rw [convert_self h]
      rfl
    by_cases h : v.type.Converts explicit type
    · obtain ⟨r, t, hrun, htype, hop, -⟩ := hyes h
      refine ⟨iff_of_true (by rw [succeeds, hrun]) h, fun r' t' hr => ?_, hself, fun e t' he => ?_⟩
      · cases hrun.symm.trans hr
        exact ⟨htype, hop⟩
      · cases hrun.symm.trans he
    · obtain ⟨op, name, hrun⟩ := hno h
      refine ⟨iff_of_false (by rw [succeeds, hrun]; simp) h, fun r t hr => ?_, hself, fun e t he => ?_⟩
      · cases hrun.symm.trans hr
      · cases hrun.symm.trans he
        exact ⟨rfl, op, name, rfl⟩
  refine ⟨(table false).1, (table true).1, fun cast hcast => ?_⟩
  rcases List.mem_pair.mp hcast with rfl | rfl
  · exact (table false).2
  · exact (table true).2

/-- A state in a function with a variable of type `int`. -/
def oneSlot : GenState :=
  let f := ((Function.shell "f" [] .void .internal).addBlock "entry").addSlot .i32
  { unit := { module := ({ name := "m" } : Module).addFunction f }
    frame := { Frame.outside with function := ⟨0⟩, block := ⟨0⟩ } }

theorem convertible_oneSlot (p : Program) : oneSlot.Convertible p := by
  refine ⟨⟨_, rfl, Nat.one_pos, rfl⟩, ⟨(UnitState.Supplied.new p "m").boxes.addFunction fun t ht => ?_,
    fun hd => by cases hd⟩⟩
  cases t <;> exact absurd ht (by decide)

/-- An integer variable becomes a number that may be missing, and it becomes no array. -/
theorem cast_table_variable :
    let env : Env := ⟨{}, {}, .standard⟩
    let v : Value := .assignable ⟨.slot ⟨0⟩ .i32, .int⟩
    oneSlot.Convertible env.program ∧ Operable env oneSlot v .dummy ∧
      succeeds (castImplicit v (.nullable .number) .dummy) env oneSlot = true ∧
      ¬ succeeds (castExplicit v (.array .int) .dummy) env oneSlot = true := by
  intro env v
  have hs := convertible_oneSlot env.program
  have hv : Operable env oneSlot v .dummy := ⟨_, _, rfl, by decide⟩
  refine ⟨hs, hv, ?_, ?_⟩
  · have hdata : (StaticType.nullable .number).IsData env.program := ⟨rfl, trivial⟩
    refine (cast_table hs hv trivial hdata).1.mpr ?_
    exact .inr (.inr ⟨.number, rfl, rfl, .inr ⟨rfl, rfl⟩⟩)
  · have hdata : (StaticType.array .int).IsData env.program := trivial
    rw [(cast_table hs hv trivial hdata).2.1]
    simp [StaticType.Casts, StaticType.Widens, StaticType.Narrows, v, Value.type]

end Conversions

end Gen

/-! ## Runs

In a program that has no function of its own under the name of a boxing function, generation keeps
units supplied. -/

/-- A program without a function that is defined elsewhere under the name of a boxing function. -/
def Program.SparesBoxes (p : Program) : Prop :=
  ∀ decl ∈ p.functions, decl.body = none → ∀ t, decl.name ≠ (SupportFunction.box t).symbol

/-- A state with a unit that is supplied. -/
structure SuppliedWorld (p : Program) where
  state : GenState
  supplied : state.unit.Supplied p

namespace SuppliedWorld

variable {p : Program}

instance : CodeWorld (SuppliedWorld p) where
  state := state
  le _ _ := True
  le_refl _ := trivial
  le_trans _ _ _ _ _ := trivial

def outlook : Outlook (SuppliedWorld p) where
  value := Eq
  attributes := Eq
  storage _ := True
  block _ _ := True
  declared _ _ _ := True
  struct _ _ _ := True
  attributes_none := rfl
  storage_of := fun _ => trivial
  block_mono := fun _ => id
  declared_mono := fun _ => id
  struct_mono := fun _ => id

/-- Nothing is said about runs that fail. -/
def Fails (_ : SuppliedWorld p) (_ : Failure) (_ : GenState) : Prop := True

end SuppliedWorld

namespace Gen

variable {α : Type} {env : Env} {m m' : Gen α} {w : SuppliedWorld env.program}

theorem KeepsSupplied.tracks (h : KeepsSupplied env m) :
    Tracks env SuppliedWorld.Fails α w (fun _ => Eq) m m' :=
  (h w.state w.supplied).mono (fun a s hs => ⟨⟨s, hs⟩, rfl, trivial, a, rfl⟩) fun _ _ h => h

theorem KeepsSupplied.of_tracks {V : SuppliedWorld env.program → α → α → Prop}
    (h : ∀ w : SuppliedWorld env.program, Tracks env SuppliedWorld.Fails α w V m m') :
    KeepsSupplied env m := fun s hs => by
  refine (h ⟨s, hs⟩).mono ?_ fun _ _ h => h
  rintro _ _ ⟨x, rfl, -⟩
  exact x.supplied

theorem supplied_trackable (env : Env) :
    Trackable SuppliedWorld.outlook env (SuppliedWorld.Fails (p := env.program)) where
  value := fun _ => rfl
  attributes := fun _ => rfl
  storage := fun _ => trivial
  later := fun _ _ => trivial
  struct := fun _ _ => trivial
  misplaced := fun _ => trivial
  refused := fun _ _ _ => trivial
  quiet := fun {w s} hq => ⟨⟨s, w.supplied.of_quiet hq⟩, rfl, trivial⟩
  edit := fun {w _} hg => ⟨⟨_, w.supplied.mapFunction hg.preserving.heading⟩, rfl, trivial⟩
  opened := fun _ _ => trivial
  moved := fun {w b} _ =>
    ⟨⟨{ w.state with frame := { w.state.frame with block := b } }, w.supplied⟩, rfl, trivial⟩
  modifyFrame := fun {w g} _ =>
    ⟨⟨{ w.state with frame := g w.state.frame }, w.supplied⟩, rfl, trivial⟩
  callSupport := fun f args _ => (KeepsSupplied.callSupport f args).tracks
  declareMath := fun {w symbol} arity attrs span hsymbol => by
    have hm : KeepsSupplied env (declareMath symbol arity attrs span) :=
      .declareExternal (fun t ht => (SupportFunction.not_names_math hsymbol ⟨_, ht.symm⟩).elim) attrs
    exact (hm w.state w.supplied).mono (fun id s hs => ⟨⟨s, hs⟩, rfl, trivial, id, trivial⟩)
      fun _ _ h => h
  callFunction := fun args attrs _ => (KeepsSupplied.callFunction _ args attrs).tracks

theorem KeepsSupplied.specialize (hp : env.program.SparesBoxes) {generate : Generate}
    {sp : Specialization} {span : Span}
    (hname : ∀ decl, env.program.function? sp.func = some decl → sp.name = decl.name)
    (hbody : ∀ body, KeepsSupplied env (generateBody generate sp body span)) :
    KeepsSupplied env (specialize generate sp span) := by
  intro s hs
  refine specialize_leads (fun _ _ _ => trivial) ?_
    (fun _ _ _ _ _ _ _ _ => ⟨hs.boxes, hs.descriptors⟩) ?_
  · intro decl params ret hdecl hnone _ _
    refine KeepsSupplied.declareExternal (fun t ht => ?_) _ s hs
    rw [hname decl hdecl] at ht
    exact (hp decl (Array.mem_of_getElem? hdecl) hnone t ht).elim
  · intro decl body params ret _ _ _ _ _
    refine (hbody body (s.started sp (sp.symbol env.program) params ret) ⟨?_, hs.descriptors⟩).mono
      (fun _ _ h => h) fun _ _ h => h
    refine hs.boxes.addFunction fun t ht => ?_
    have hreserved := sp.isReserved_symbol env.program
    rw [show sp.symbol env.program = (SupportFunction.box t).symbol from ht,
      SupportFunction.isReserved_symbol] at hreserved
    cases hreserved

/-- Whatever is generated, the unit is supplied afterwards. -/
theorem generate_supplied (hp : env.program.SparesBoxes) (depth : Nat) (n : Node) :
    KeepsSupplied env (Gen.generate depth n) := by
  have nodes := (supplied_trackable env).nodes (fun _ => trivial) ?_ depth n
  · exact .of_tracks nodes
  · intro depth hn w signature sp decl typeArgs argCount span args _ _ hdecl hres
    have hres := Specialization.resolve_ok hres
    have hrequest : KeepsSupplied env (specialize (Gen.generate depth) sp span) := by
      refine .specialize hp (fun decl' hdecl' => ?_) fun body =>
        .of_tracks fun w => (supplied_trackable env).body (hn body) (fun _ _ d _ => hn d) span
      rw [hres.func_eq, hdecl] at hdecl'
      cases hdecl'
      exact hres.name_eq
    exact (hrequest.bind fun callee => .callFunction callee args .none).tracks

end Gen

end TypedLowering
