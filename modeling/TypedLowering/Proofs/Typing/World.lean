import TypedLowering.Proofs.Lowering.Journal

/-!
States of code generation in which everything that was generated is well typed. An operand has the
low-level type of the static type that code generation keeps for it, and is no address; places lead
to addresses of what they hold. All of this stands under the condition that the specializations that
share a symbol are the same, since a call is typed by the request for its callee, and the callee by
the first request with that symbol.
-/
namespace TypedLowering
set_option autoImplicit false
open Ssa

/-! ## What values stand for -/

/-- An operand with the low-level type of a static type. -/
def Ssa.Function.Holds (f : Function) (x : ValueId) (t : StaticType) : Prop :=
  ∃ ty, t.lowered .dummy = .ok ty ∧ f.IsOperand x ty

/-- Elements have the type of the storage. -/
def ArrayLayout.Represents (l : ArrayLayout) : Prop :=
  l.element.lowered .dummy = .ok l.storage.type

/-- The struct of a class has the fields that the descriptor says, at the types of the program. -/
structure ClassDescriptor.LaidOut (m : Module) (d : ClassDescriptor) : Prop where
  struct : ∃ s, m.struct? d.layout = some s ∧ s.fields = d.fields.map (·.lowered)
  field : ∀ {f}, f ∈ d.fields → f.type.lowered .dummy = .ok f.lowered

/-- What an object reference refers to is laid out. -/
def ObjectKind.Typed (m : Module) : ObjectKind → Prop
  | .cls d => d.LaidOut m
  | .array l => l.Represents
  | .builtin _ => True

structure ObjectRef.Typed (m : Module) (f : Function) (o : ObjectRef) : Prop where
  kind : o.kind.Typed m
  type : o.type.lowered .dummy = .ok .ptr
  address : ∀ {a}, o.address = some a → f.IsOperand a .ptr

/-- A place for values of a static type. -/
def Place.Typed (m : Module) (f : Function) (t : StaticType) : Place → Prop
  | .slot ptr lowered =>
    t.lowered .dummy = .ok lowered ∧ f.definition? ptr = some ⟨.alloca lowered, .ptr⟩
  | .field object struct index lowered =>
    t.lowered .dummy = .ok lowered ∧ f.IsOperand object .ptr ∧
      ∃ s, m.struct? struct = some s ∧ s.fields[index]? = some lowered
  | .element array index l =>
    t.lowered .dummy = .ok l.storage.type ∧ f.IsOperand array .ptr ∧ f.IsOperand index .i32

/-- A generated value is what its static type says. -/
def Value.Typed (m : Module) (f : Function) : Value → Prop
  | .unit => True
  | .rvalue x t => f.Holds x t
  | .assignable a => a.place.Typed m f a.type
  | .object o => o.Typed m f

/-- A name stands for an operand or a slot of its type. -/
def Binding.Typed (m : Module) (f : Function) : Binding StaticType → Prop
  | .constant x t => f.Holds x t
  | .slot ptr lowered t => (Place.slot ptr lowered).Typed m f t

/-- What a frame refers to has the types that it says. -/
structure Frame.Typed (m : Module) (f : Function) (fr : Frame) : Prop where
  scope : ∀ {name b}, fr.scope.get? name = some b → b.Typed m f
  this : ∀ {o}, fr.this = some o → o.Typed m f
  ret : fr.returnType.lowered .dummy = .ok f.ret

section Prolong

variable {m m' : Module} {f g : Function}

theorem Ssa.Function.Prolongs.holds (h : f.Prolongs g) {x : ValueId} {t : StaticType}
    (hx : f.Holds x t) : g.Holds x t := by
  obtain ⟨ty, ht, hx⟩ := hx
  exact ⟨ty, ht, h.isOperand hx⟩

theorem Ssa.Function.Holds.isOperand {x : ValueId} {t : StaticType} (h : f.Holds x t) {ty : Ty}
    (ht : t.lowered .dummy = .ok ty) : f.IsOperand x ty := by
  obtain ⟨ty', ht', hx⟩ := h
  cases ht.symm.trans ht'
  exact hx

variable (hm : m.Prolongs m') (hf : f.Prolongs g)
include hm

theorem ClassDescriptor.LaidOut.prolong {d : ClassDescriptor} (h : d.LaidOut m) : d.LaidOut m' := by
  obtain ⟨s, hs, hfields⟩ := h.struct
  exact ⟨⟨s, hm.struct hs, hfields⟩, h.field⟩

theorem ObjectKind.Typed.prolong {k : ObjectKind} (h : k.Typed m) : k.Typed m' := by
  cases k with
  | cls d => exact ClassDescriptor.LaidOut.prolong hm h
  | array l => exact h
  | builtin b => exact h

include hf

theorem ObjectRef.Typed.prolong {o : ObjectRef} (h : o.Typed m f) : o.Typed m' g :=
  ⟨ObjectKind.Typed.prolong hm h.kind, h.type, fun ha => hf.isOperand (h.address ha)⟩

theorem Place.Typed.prolong {t : StaticType} {p : Place} (h : p.Typed m f t) : p.Typed m' g t := by
  cases p with
  | slot ptr lowered => exact ⟨h.1, hf.values h.2⟩
  | field object struct index lowered =>
    obtain ⟨ht, ho, s, hs, hi⟩ := h
    exact ⟨ht, hf.isOperand ho, s, hm.struct hs, hi⟩
  | element array index l => exact ⟨h.1, hf.isOperand h.2.1, hf.isOperand h.2.2⟩

theorem Value.Typed.prolong {v : Value} (h : v.Typed m f) : v.Typed m' g := by
  cases v with
  | unit => trivial
  | rvalue x t => exact hf.holds h
  | assignable a => exact Place.Typed.prolong hm hf h
  | object o => exact ObjectRef.Typed.prolong hm hf h

theorem Binding.Typed.prolong {b : Binding StaticType} (h : b.Typed m f) : b.Typed m' g := by
  cases b with
  | constant x t => exact hf.holds h
  | slot ptr lowered t =>
    have hp : (Place.slot ptr lowered).Typed m f t := h
    exact hp.prolong hm hf

theorem Frame.Typed.prolong {fr : Frame} (h : fr.Typed m f) : fr.Typed m' g where
  scope := fun hn => (h.scope hn).prolong hm hf
  this := fun ho => (h.this ho).prolong hm hf
  ret := by
    rw [Function.ret_of_signature hf.signature]
    exact h.ret

end Prolong

/-! ## Units -/

/-- Specializations that have been requested under one symbol are of the same declaration and at the
same type arguments. -/
def UnitState.Agrees (p : Program) (u : UnitState) : Prop :=
  ∀ r ∈ u.requests, ∀ r' ∈ u.requests,
    r.specialization.symbol p = r'.specialization.symbol p →
      r.specialization.func = r'.specialization.func ∧
        r.specialization.typeArgs = r'.specialization.typeArgs

/-- The module of a unit is well typed, and what the unit refers to is in it. -/
structure UnitState.Typed (u : UnitState) : Prop where
  wellTyped : u.module.WellTyped
  symbols : ∀ {name id}, u.module.lookup name = some id → ∃ f, u.module.function? id = some f
  header : ∀ {id}, u.arrayHeader = some id →
    u.module.struct? id = some ⟨"brisk.array", [.i32, .i32, .ptr]⟩
  descriptors : ∀ {cls d}, u.descriptors.get? cls = some d → d.LaidOut u.module

/-- Generation gets from `u` to `u'`. -/
structure UnitState.Later (u u' : UnitState) : Prop where
  module : u.module.Prolongs u'.module
  requests : u.requests <:+ u'.requests

namespace UnitState.Later

variable {p : Program} {u u' u'' : UnitState}

theorem refl (u : UnitState) : u.Later u := ⟨.refl _, List.suffix_rfl⟩

theorem trans (h : u.Later u') (h' : u'.Later u'') : u.Later u'' :=
  ⟨h.module.trans h'.module, h.requests.trans h'.requests⟩

theorem agrees (h : u.Later u') (ha : u'.Agrees p) : u.Agrees p := fun r hr r' hr' =>
  ha r (h.requests.subset hr) r' (h.requests.subset hr')

end UnitState.Later

/-! ## Worlds -/

/-- A state of code generation with a journal in order and a unit that is well typed if the
specializations agree. -/
structure TypedUnit (p : Program) where
  state : GenState
  recorded : state.unit.Recorded (fun _ => True) p
  typed : state.unit.Agrees p → state.unit.Typed

/-- Such a state inside of a function, with a frame that fits it. -/
structure TypedWorld (p : Program) extends TypedUnit p where
  fn : Function
  current : state.unit.module.function? state.frame.function = some fn
  fits : state.unit.Agrees p → state.frame.Typed state.unit.module fn

variable {p : Program}

/-- The frame stays, and what is in the unit does. -/
instance : CodeWorld (TypedUnit p) where
  state := TypedUnit.state
  le := fun w x => x.state.frame = w.state.frame ∧ w.state.unit.Later x.state.unit
  le_refl := fun _ => ⟨rfl, .refl _⟩
  le_trans := fun _ _ _ h h' => ⟨h'.1.trans h.1, h.2.trans h'.2⟩

/-- The function stays, and what is in the unit does. -/
instance : CodeWorld (TypedWorld p) where
  state := fun w => w.state
  le := fun w x => x.state.frame.function = w.state.frame.function ∧
    w.state.unit.Later x.state.unit
  le_refl := fun _ => ⟨rfl, .refl _⟩
  le_trans := fun _ _ _ h h' => ⟨h'.1.trans h.1, h.2.trans h'.2⟩

namespace TypedUnit

@[simp] theorem state_eq (w : TypedUnit p) : CodeWorld.state w = w.state := rfl

/-- What holds of the module if the specializations agree. -/
def Ensures (w : TypedUnit p) (P : Module → Prop) : Prop :=
  w.state.unit.Agrees p → P w.state.unit.module

theorem Ensures.prolong {w x : TypedUnit p} {P : Module → Prop} (h : w.Ensures P) (hx : w ≤ x)
    (hP : ∀ {m m'}, m.Prolongs m' → P m → P m') : x.Ensures P :=
  fun ha => hP hx.2.module (h (hx.2.agrees ha))

end TypedUnit

namespace TypedWorld

variable {w x y : TypedWorld p}

abbrev frame (w : TypedWorld p) : Frame := w.state.frame
abbrev module (w : TypedWorld p) : Module := w.state.unit.module

@[simp] theorem state_eq (w : TypedWorld p) : CodeWorld.state w = w.state := rfl

theorem later (h : w ≤ x) : w.state.unit.Later x.state.unit := h.2

theorem prolongs (h : w ≤ x) : w.fn.Prolongs x.fn := by
  obtain ⟨f, hf, hp⟩ := (later h).module.function w.current
  have hx := x.current
  rw [h.1] at hx
  cases hx.symm.trans hf
  exact hp

/-- What holds of the module and of the current function if the specializations agree. -/
def Ensures (w : TypedWorld p) (P : Module → Function → Prop) : Prop :=
  w.state.unit.Agrees p → P w.module w.fn

theorem Ensures.prolong {P : Module → Function → Prop} (h : w.Ensures P) (hx : w ≤ x)
    (hP : ∀ {m m' f g}, m.Prolongs m' → f.Prolongs g → P m f → P m' g) : x.Ensures P :=
  fun ha => hP (later hx).module (prolongs hx) (h ((later hx).agrees ha))

/-- An operand with a low-level type. -/
def Carries (w : TypedWorld p) (x : ValueId) (t : Ty) : Prop := w.Ensures fun _ f => f.IsOperand x t

/-- An operand with the low-level type of a static type. -/
def Holds (w : TypedWorld p) (x : ValueId) (t : StaticType) : Prop :=
  w.Ensures fun _ f => f.Holds x t

/-- A value that is what its static type says. -/
def Yields (w : TypedWorld p) (v : Value) : Prop := w.Ensures v.Typed

/-- An object that is what its type says. -/
def Refers (w : TypedWorld p) (o : ObjectRef) : Prop := w.Ensures o.Typed

/-- A function of the module with a signature. -/
def Calls (w : TypedWorld p) (callee : FunctionId) (params : List Ty) (ret : Ty) (variadic : Bool) :
    Prop :=
  w.Ensures fun m _ => ∃ f, m.function? callee = some f ∧ f.signature = (params, ret, variadic)

variable {v : ValueId} {t : Ty} {st : StaticType}

theorem carries (h : w ≤ x) (hv : w.Carries v t) : x.Carries v t :=
  hv.prolong h fun _ hf => hf.isOperand

theorem holds (h : w ≤ x) (hv : w.Holds v st) : x.Holds v st :=
  hv.prolong h fun _ hf => hf.holds

theorem yields (h : w ≤ x) {v : Value} (hv : w.Yields v) : x.Yields v :=
  hv.prolong h fun hm hf => Value.Typed.prolong hm hf

theorem refers (h : w ≤ x) {o : ObjectRef} (ho : w.Refers o) : x.Refers o :=
  ho.prolong h fun hm hf => ObjectRef.Typed.prolong hm hf

theorem calls (h : w ≤ x) {callee : FunctionId} {params : List Ty} {ret : Ty} {variadic : Bool}
    (hc : w.Calls callee params ret variadic) : x.Calls callee params ret variadic :=
  hc.prolong h fun hm _ ⟨_, hf, hs⟩ => by
    obtain ⟨f', hf', hp⟩ := hm.function hf
    exact ⟨f', hf', hp.signature.trans hs⟩

theorem Holds.carries (h : w.Holds v st) (ht : st.lowered .dummy = .ok t) : w.Carries v t :=
  fun ha => (h ha).isOperand ht

theorem Carries.holds (h : w.Carries v t) (ht : st.lowered .dummy = .ok t) : w.Holds v st :=
  fun ha => ⟨t, ht, h ha⟩

/-- The worlds of the same unit and function with another frame. -/
theorem exists_framed (w : TypedWorld p) (fr : Frame) (hf : fr.function = w.frame.function)
    (ht : w.Ensures fun m f => fr.Typed m f) :
    ∃ x : TypedWorld p, x.state = ⟨w.state.unit, fr⟩ ∧ x.fn = w.fn ∧ w ≤ x :=
  ⟨⟨⟨⟨w.state.unit, fr⟩, w.recorded, w.typed⟩, w.fn, by rw [hf]; exact w.current, ht⟩, rfl, rfl, hf,
    .refl _⟩

end TypedWorld

/-- A step that concerns the unit alone. -/
theorem TypedWorld.exists_of_unit (w : TypedWorld p) {x : TypedUnit p} (h : w.toTypedUnit ≤ x) :
    ∃ y : TypedWorld p, y.toTypedUnit = x ∧ w ≤ y := by
  obtain ⟨hframe, hlater⟩ := h
  obtain ⟨f, hf, hp⟩ := hlater.module.function w.current
  refine ⟨⟨x, f, by rw [hframe]; exact hf, fun ha => ?_⟩, rfl, congrArg Frame.function hframe, hlater⟩
  rw [hframe]
  exact (w.fits (hlater.agrees ha)).prolong hlater.module hp

theorem Gen.Spec.of_unit {α : Type} {env : Env} {w : TypedWorld p} {m : Gen α}
    {Q : α → TypedUnit p → Prop} (h : Gen.Spec env w.toTypedUnit m Q) :
    Gen.Spec env w m fun a x => Q a x.toTypedUnit := by
  intro a s hm
  obtain ⟨x, rfl, hwx, hq⟩ := h a s hm
  obtain ⟨y, rfl, hwy⟩ := w.exists_of_unit hwx
  exact ⟨y, rfl, hwy, hq⟩

/-! ## Modules -/

namespace Ssa.Module

variable {m : Module} {id : FunctionId} {f : Function} {g : Function → Function}

theorem prolongs_modifyFunction (hf : m.function? id = some f) (hp : f.Prolongs (g f)) :
    m.Prolongs (m.modifyFunction id g) := by
  refine ⟨fun {id' f'} hf' => ?_, fun hd => hd⟩
  rw [function?_modifyFunction]
  split
  · next heq =>
    subst heq
    cases hf.symm.trans hf'
    exact ⟨g f, by rw [hf]; rfl, hp⟩
  · exact ⟨f', hf', .refl f'⟩

theorem wellTyped_modifyFunction (h : m.WellTyped) (hf : m.function? id = some f)
    (hp : f.Prolongs (g f)) (hg : (g f).WellTyped m) : (m.modifyFunction id g).WellTyped := by
  intro id' f' hf'
  have hm := prolongs_modifyFunction hf hp
  rw [function?_modifyFunction] at hf'
  split at hf'
  · next heq =>
    subst heq
    rw [hf] at hf'
    cases hf'
    exact hg.prolong hm
  · exact (h _ _ hf').prolong hm

theorem prolongs_addFunction (m : Module) (f : Function) : m.Prolongs (m.addFunction f) :=
  .of_kept (fun hf => (m.function?_addFunction_of_ne (ne_nextFunction hf)).trans hf) id

theorem wellTyped_addFunction (h : m.WellTyped) (hf : f.WellTyped m) :
    (m.addFunction f).WellTyped := by
  intro id f' hf'
  have hm := m.prolongs_addFunction f
  by_cases hid : id = m.nextFunction
  · subst hid
    cases (m.function?_addFunction_next f).symm.trans hf'
    exact hf.prolong hm
  · rw [m.function?_addFunction_of_ne hid] at hf'
    exact (h _ _ hf').prolong hm

theorem struct?_addStruct_of_some {s : StructId} {d : StructDef} (hd : m.struct? s = some d)
    (name : String) (fields : List Ty) : (m.addStruct name fields).2.struct? s = some d := by
  obtain ⟨hlt, -⟩ := Array.getElem?_eq_some_iff.mp hd
  show (m.structs.push _)[s.index]? = some d
  rw [Array.getElem?_push, if_neg (Nat.ne_of_lt hlt)]
  exact hd

theorem struct?_addStruct_next (m : Module) (name : String) (fields : List Ty) :
    (m.addStruct name fields).2.struct? (m.addStruct name fields).1 = some ⟨name, fields⟩ := by
  show (m.structs.push _)[m.structs.size]? = _
  simp

theorem prolongs_addStruct (m : Module) (name : String) (fields : List Ty) :
    m.Prolongs (m.addStruct name fields).2 :=
  .of_kept id fun hd => struct?_addStruct_of_some hd name fields

end Ssa.Module

end TypedLowering
