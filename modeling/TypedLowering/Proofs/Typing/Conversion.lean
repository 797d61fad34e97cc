import TypedLowering.Lowering.Conversion
import TypedLowering.Proofs.Typing.Emission

/-!
Values are read, written and converted at their types: the operand of a value has the low-level type
of its static type, a place is stored to at the type of what it holds, and a value that is converted
to a static type has the low-level type of it. An object keeps the name that its class has in the
program, which need not be the one in the type that it is converted to; so a conversion is said to
give a value of the right low-level type, not of the static type itself.
-/
namespace TypedLowering
set_option autoImplicit false
open Ssa Ssa.Function

theorem ArrayLayout.of_ok {t : StaticType} {span : Span} {l : ArrayLayout}
    (h : ArrayLayout.of t span = .ok l) : l.Represents ∧ t = .array l.element := by
  unfold ArrayLayout.of at h
  split at h
  · split at h <;> cases h <;> exact ⟨rfl, rfl⟩
  · cases h

namespace TypedWorld

variable {p : Program} {w x : TypedWorld p} {v : Value} {t : StaticType}

/-- A value that is what its static type says, and has the low-level type of another. -/
def Becomes (w : TypedWorld p) (v : Value) (t : StaticType) : Prop :=
  w.Ensures fun m f => v.Typed m f ∧ v.type.lowered .dummy = t.lowered .dummy

theorem Becomes.yields (h : w.Becomes v t) : w.Yields v := fun ha => (h ha).1

theorem Yields.becomes (h : w.Yields v) (ht : v.type = t) : w.Becomes v t :=
  fun ha => ⟨h ha, by rw [ht]⟩

theorem Holds.becomes {a : ValueId} (h : w.Holds a t) : w.Becomes (.rvalue a t) t :=
  fun ha => ⟨h ha, rfl⟩

end TypedWorld

namespace Gen

variable {env : Env} {p : Program} {w : TypedWorld p} {span : Span}

theorem Spec.yields {m : Gen Value} {t : StaticType} (h : Spec env w m fun v x => x.Becomes v t) :
    Spec env w m fun v x => x.Yields v :=
  h.mono fun _ _ _ hv => hv.yields

theorem layout_typed {t : StaticType} : Spec env w (layout t span) fun ty x =>
    t.lowered .dummy = .ok ty ∧ x = w := by
  refine .here fun ty s h => ?_
  obtain ⟨ht, rfl⟩ := ofExcept_ok h
  exact ⟨rfl, StaticType.lowered_span ht _, rfl⟩

/-! ## Array elements -/

section Elements

variable {array index value : ValueId} {l : ArrayLayout}

/-- A step that goes on with the address of a field of an array header. -/
theorem headerField_typed {α : Type} {i : Nat} {t : Ty} {k : ValueId → Gen α}
    {Q : α → TypedWorld p → Prop} (ht : [Ty.i32, .i32, .ptr][i]? = some t)
    (ha : w.Carries array .ptr)
    (hk : ∀ v x, w ≤ x → x.Ensures (fun m f => f.PointsTo m v t) → Spec env x (k v) Q) :
    Spec env w (do
      let header ← arrayHeader
      let ptr ← emit (.fieldPtr array header i)
      k ptr) Q := by
  refine .bind arrayHeader_unit.of_unit fun header x hx hheader => ?_
  have ha := TypedWorld.carries hx ha
  obtain ⟨hi, -⟩ := List.getElem?_eq_some_iff.mp ht
  refine .bind (emit_typed (d := .fieldPtr array header i) fun hagree =>
    ⟨rfl, (ha hagree).hasType, _, hheader hagree, hi⟩) fun v y hy hv => hk v y (hx.trans hy) ?_
  refine fun hagree => ⟨_, hv, rfl, fun _ => ?_⟩
  have hstruct := (TypedWorld.later hy).module.struct
    (hheader ((TypedWorld.later hy).agrees hagree))
  exact Option.bind_eq_some_iff.mpr ⟨_, hstruct, ht⟩

theorem arrayLength_typed (ha : w.Carries array .ptr) :
    Spec env w (arrayLength array) fun v x => x.Carries v .i32 :=
  headerField_typed (i := lengthField) rfl ha fun _ _ _ hptr => emitLoad_typed hptr

theorem elementAddress_typed (ha : w.Carries array .ptr) (hi : w.Carries index .i32) :
    Spec env w (elementAddress l array index) fun v x =>
      x.Ensures fun m f => f.PointsTo m v l.storage.type := by
  refine headerField_typed (i := dataField) rfl ha fun ptr x hx hptr => ?_
  refine .bind (emitLoad_typed hptr) fun data y hy hdata => ?_
  have hi := TypedWorld.carries (hx.trans hy) hi
  exact (emit_typed (d := .elementPtr data l.storage.type index) fun hagree =>
    ⟨rfl, (hdata hagree).hasType, (hi hagree).hasType⟩).mono
    fun v z _ hv _ => ⟨_, hv, rfl, fun _ => rfl⟩

theorem loadElement_typed (ha : w.Carries array .ptr) (hi : w.Carries index .i32) :
    Spec env w (loadElement l array index span) fun v x => x.Carries v l.storage.type := by
  refine .read rfl ?_
  split
  · exact callSupport_typed (fun _ => rfl) (.cons ha (.cons hi .nil))
  · exact .bind (elementAddress_typed ha hi) fun ptr x _ hptr => emitLoad_typed hptr

theorem storeElement_typed (ha : w.Carries array .ptr) (hi : w.Carries index .i32)
    (hv : w.Carries value l.storage.type) :
    Spec env w (storeElement l array index value span) fun _ _ => True := by
  refine .read rfl ?_
  split
  · exact .bind (callSupport_typed (fun _ => rfl) (.cons ha (.cons hi (.cons hv .nil))))
      fun _ _ _ _ => .pure trivial
  · exact .bind (elementAddress_typed ha hi) fun ptr x hx hptr =>
      emitStore_typed (TypedWorld.carries hx hv) hptr

end Elements

/-! ## Places -/

section Places

variable {a : Assignable} {v : ValueId}

/-- The address of a field of a class instance. -/
theorem fieldAddress_typed {object : ValueId} {struct : StructId} {index : Nat} {lowered : Ty}
    (h : w.Ensures fun m f => f.IsOperand object .ptr ∧
      ∃ s, m.struct? struct = some s ∧ s.fields[index]? = some lowered) :
    Spec env w (emit (.fieldPtr object struct index)) fun v x =>
      x.Ensures fun m f => f.PointsTo m v lowered := by
  refine (emit_typed (d := .fieldPtr object struct index) fun hagree => ?_).mono
    fun v x hx hv hagree => ⟨_, hv, rfl, fun _ => ?_⟩
  · obtain ⟨ho, s, hs, hi⟩ := h hagree
    exact ⟨rfl, ho.hasType, s, hs, (List.getElem?_eq_some_iff.mp hi).1⟩
  · obtain ⟨-, s, hs, hi⟩ := h ((TypedWorld.later hx).agrees hagree)
    exact Option.bind_eq_some_iff.mpr ⟨s, (TypedWorld.later hx).module.struct hs, hi⟩

theorem load_typed (ha : w.Yields (.assignable a)) :
    Spec env w (load a span) fun v x => x.Holds v a.type := by
  obtain ⟨place, t⟩ := a
  -- an operand of the type of what the place holds
  have holds {m : Gen ValueId} {lowered : Ty}
      (ht : w.Ensures fun _ _ => t.lowered .dummy = .ok lowered)
      (hm : Spec env w m fun v x => x.Carries v lowered) : Spec env w m fun v x => x.Holds v t :=
    hm.mono fun v x hx hv hagree => ⟨lowered, ht ((TypedWorld.later hx).agrees hagree), hv hagree⟩
  unfold load
  cases place with
  | slot ptr lowered =>
    exact holds (fun hagree => (ha hagree).1)
      (emitLoad_typed fun hagree => ⟨_, (ha hagree).2, rfl, fun _ => rfl⟩)
  | field object struct index lowered =>
    exact holds (fun hagree => (ha hagree).1) (.bind (fieldAddress_typed fun hagree => (ha hagree).2)
      fun ptr x _ hptr => emitLoad_typed hptr)
  | element array index l =>
    exact holds (fun hagree => (ha hagree).1)
      (loadElement_typed (fun hagree => (ha hagree).2.1) fun hagree => (ha hagree).2.2)

theorem store_typed (ha : w.Yields (.assignable a)) (hv : w.Holds v a.type) :
    Spec env w (store a v span) fun _ _ => True := by
  obtain ⟨place, t⟩ := a
  have carries {lowered : Ty} (ht : w.Ensures fun _ _ => t.lowered .dummy = .ok lowered) :
      w.Carries v lowered := fun hagree => (hv hagree).isOperand (ht hagree)
  unfold store
  cases place with
  | slot ptr lowered =>
    exact emitStore_typed (carries fun hagree => (ha hagree).1)
      fun hagree => ⟨_, (ha hagree).2, rfl, fun _ => rfl⟩
  | field object struct index lowered =>
    exact .bind (fieldAddress_typed fun hagree => (ha hagree).2) fun ptr x hx hptr =>
      emitStore_typed (TypedWorld.carries hx (carries fun hagree => (ha hagree).1)) hptr
  | element array index l =>
    exact storeElement_typed (fun hagree => (ha hagree).2.1) (fun hagree => (ha hagree).2.2)
      (carries fun hagree => (ha hagree).1)

end Places

/-! ## Objects and values -/

section Objects

variable {o : ObjectRef} {v : Value} {x : ValueId} {t : StaticType}

theorem objectAt_typed (hx : w.Holds x t) :
    Spec env w (objectAt x t span) fun o y => y.Refers o := by
  unfold objectAt
  split
  · refine .bind descriptor_unit.of_unit fun d y hy hd => .pure fun hagree => ?_
    have hx := TypedWorld.holds hy hx hagree
    refine ⟨hd hagree, rfl, fun ha => ?_⟩
    cases ha
    exact hx.isOperand rfl
  · refine .bind (.ofExcept (Q := fun l y => y = w ∧ l.Represents) fun l hl =>
      ⟨rfl, (ArrayLayout.of_ok hl).1⟩) ?_
    rintro l _ - ⟨rfl, hl⟩
    refine .pure fun hagree => ⟨hl, rfl, fun ha => ?_⟩
    cases ha
    exact (hx hagree).isOperand rfl
  · exact .pure fun _ => ⟨trivial, rfl, fun ha => by cases ha⟩
  · exact .internal

theorem objectOperand_typed (ho : w.Refers o) :
    Spec env w (objectOperand o) fun x y => y.Carries x .ptr := by
  unfold objectOperand
  split
  · next a ha => exact .pure fun hagree => (ho hagree).address ha
  · exact emitNull_typed

theorem requireAddress_typed (ho : w.Refers o) :
    Spec env w (requireAddress o span) fun x y => y.Carries x .ptr := by
  unfold requireAddress
  split
  · next a ha => exact .pure fun hagree => (ho hagree).address ha
  · exact .internal

theorem operand_typed (hv : w.Yields v) :
    Spec env w (operand v span) fun x y => y.Holds x v.type := by
  unfold operand
  cases v with
  | unit => exact .internal
  | rvalue x t => exact .pure hv
  | assignable a => exact load_typed hv
  | object o =>
    exact (objectOperand_typed hv).mono fun x y hy hx hagree =>
      ⟨.ptr, (hv ((TypedWorld.later hy).agrees hagree)).type, hx hagree⟩

/-- The operand of a value that has become one of a type. -/
theorem operand_of_becomes (hv : w.Becomes v t) :
    Spec env w (operand v span) fun x y => y.Holds x t :=
  (operand_typed hv.yields).mono fun _ _ hy hx hagree => by
    obtain ⟨ty, ht, hx⟩ := hx hagree
    exact ⟨ty, (hv ((TypedWorld.later hy).agrees hagree)).2.symm.trans ht, hx⟩

/-- The operand of a value of a type with a known representation. -/
theorem operand_carries (hv : w.Yields v) {r : Ty} (ht : v.type.lowered .dummy = .ok r) :
    Spec env w (operand v span) fun x y => y.Carries x r :=
  (operand_typed hv).mono fun _ _ _ hx => hx.carries ht

theorem valueOf_typed (hx : w.Holds x t) :
    Spec env w (valueOf x t span) fun v y => y.Becomes v t := by
  have object (ht : t.lowered .dummy = .ok .ptr) :
      Spec env w (do return Value.object (← objectAt x t span)) fun v y => y.Becomes v t :=
    .bind (objectAt_typed hx) fun o y _ ho => .pure fun hagree =>
      ⟨ho hagree, (ho hagree).type.trans ht.symm⟩
  unfold valueOf
  split
  · exact .pure fun _ => ⟨trivial, rfl⟩
  · exact object rfl
  · exact object rfl
  · exact object rfl
  all_goals exact .pure hx.becomes

theorem intoObject_typed (hv : w.Yields v) :
    Spec env w (intoObject v span) fun o y => y.Refers o := by
  unfold intoObject
  split
  · exact .pure hv
  · split
    · exact .bind (operand_typed hv) fun x y _ hx => objectAt_typed hx
    · exact .unsupported

end Objects

/-! ## Conversions -/

section Conversions

variable {v : Value} {target : StaticType}

theorem boxValue_typed {inner : StaticType} (hv : w.Yields v) :
    Spec env w (boxValue v (.nullable inner) span) fun r x => x.Becomes r (.nullable inner) := by
  unfold boxValue
  refine .bind layout_typed ?_
  rintro lowered _ - ⟨ht, rfl⟩
  refine .bind (operand_carries hv ht) fun x y _ hx => ?_
  have cell (hf : (SupportFunction.box lowered).variadic = false) :
      Spec env y (do return Value.rvalue (← callSupport (.box lowered) [x] span) (.nullable inner))
        fun r z => z.Becomes r (.nullable inner) :=
    .bind (callSupport_typed (fun _ => rfl) (.cons hx .nil)) fun c z _ hc =>
      .pure (hc.holds rfl).becomes
  cases lowered with
  | ptr => exact .pure (hx.holds rfl).becomes
  | i1 | i32 | f64 => exact cell rfl
  | i64 | void => exact .unsupported

theorem unboxValue_typed (hv : w.Yields v) (ht : v.type = .nullable target) :
    Spec env w (unboxValue v target span) fun r x => x.Becomes r target := by
  unfold unboxValue
  refine .bind layout_typed ?_
  rintro lowered _ - ⟨hlowered, rfl⟩
  refine .bind (operand_carries (r := .ptr) hv (by rw [ht]; rfl)) fun cell y _ hcell => ?_
  have payload : Spec env y (do valueOf (← emit (.load lowered cell)) target span) fun r x =>
      x.Becomes r target :=
    .bind (emitLoad_typed fun hagree => (hcell hagree).pointsTo _) fun x z _ hx =>
      valueOf_typed (hx.holds hlowered)
  cases lowered with
  | ptr => exact valueOf_typed (hcell.holds hlowered)
  | _ => exact payload

theorem noConversion_typed {α : Type} {explicit : Bool} {source : StaticType}
    {Q : α → TypedWorld p → Prop} : Spec env w (noConversion explicit source target span) Q :=
  .unsupported

theorem convertFrom_typed {explicit : Bool} {toInner : Gen Value} (hv : w.Yields v)
    (hi : Spec env w toInner fun r x => x.Yields r) :
    Spec env w (convertFrom explicit v span toInner target) fun r x => x.Becomes r target := by
  -- an instruction on the operand
  have by_cast {c : CastOp} (hs : v.type.lowered .dummy = .ok c.source)
      (ht : target.lowered .dummy = .ok c.target) : Spec env w (do
        let x ← operand v span
        return Value.rvalue (← emit (.cast c x c.target)) target) fun r x => x.Becomes r target := by
    refine .bind (operand_carries hv hs) fun x y _ hx => ?_
    refine .bind (emit_carries rfl fun hagree => ⟨rfl, (hx hagree).hasType⟩) fun r z _ hr => ?_
    exact .pure (hr.holds ht).becomes
  unfold convertFrom
  split
  · next hs => exact by_cast (c := .sitofp) (by rw [hs]; rfl) rfl
  · next hs =>
    split
    · exact by_cast (c := .fptosi) (by rw [hs]; rfl) rfl
    · exact noConversion_typed
  · next hs =>
    split
    · exact by_cast (c := .zext) (by rw [hs]; rfl) rfl
    · exact noConversion_typed
  · next hs =>
    split
    · refine .bind (operand_carries (r := .i32) hv (by rw [hs]; rfl)) fun x y _ hx => ?_
      refine .bind emitI32_typed fun zero z hz hzero => ?_
      have hx := TypedWorld.carries hz hx
      refine .bind (emit_carries rfl fun hagree =>
        ⟨rfl, .i32, rfl, (hx hagree).hasType, (hzero hagree).hasType⟩) fun r z' _ hr => ?_
      exact .pure (hr.holds rfl).becomes
    · exact noConversion_typed
  · next inner hs =>
    split
    · next hsame =>
      simp only [Bool.and_eq_true, decide_eq_true_eq] at hsame
      exact unboxValue_typed hv (by rw [hs, hsame.2])
    · exact noConversion_typed
  · exact .bind hi fun r x _ hr => boxValue_typed hr
  · exact noConversion_typed

theorem convert_typed {explicit : Bool} (hv : w.Yields v) :
    Spec env w (convert explicit v span target) fun r x => x.Becomes r target := by
  have plain (t : StaticType) : Spec env w
      (if v.type = t then pure v else convertFrom explicit v span (pure v) t)
      fun r x => x.Becomes r t := by
    split
    · next ht => exact .pure (hv.becomes ht)
    · exact convertFrom_typed hv (.pure hv)
  induction target with
  | nullable inner ih =>
    unfold convert
    split
    · next ht => exact .pure (hv.becomes ht)
    · exact convertFrom_typed hv ih.yields
  | _ => exact plain _

theorem castOperand_typed (hv : w.Yields v) :
    Spec env w (castOperand v target span) fun x y => y.Holds x target :=
  .bind (convert_typed hv) fun _ _ _ hr => operand_of_becomes hr

theorem assign_typed {a : Assignable} (ha : w.Yields (.assignable a)) (hv : w.Yields v) :
    Spec env w (assign a v span) fun r x => x.Yields r := by
  refine .bind (castOperand_typed hv) fun x y hy hx => ?_
  refine .bind (store_typed (TypedWorld.yields hy ha) hx) fun _ z hz _ => ?_
  exact (valueOf_typed (TypedWorld.holds hz hx)).yields

end Conversions

/-! ## Nodes -/

/-- A node that is generated to a value which is what its static type says. -/
def Types (env : Env) (generate : Generate) (n : Node) : Prop :=
  ∀ w : TypedWorld env.program, Spec env w (generate n) fun v x => x.Yields v

section Nodes

variable {w : TypedWorld env.program} {generate : Generate} {n : Node}

theorem generateOperand_typed {t : StaticType} (hn : Types env generate n) :
    Spec env w (generateOperand generate n t) fun x y => y.Holds x t :=
  .bind (hn w) fun _ _ _ hv => castOperand_typed hv

theorem operands_typed {args : List Node} {t : StaticType} (h : ∀ a ∈ args, Types env generate a) :
    Spec env w (args.mapM fun a => generateOperand generate a t) fun xs y =>
      xs.length = args.length ∧ ∀ x ∈ xs, y.Holds x t :=
  Spec.mapM (P := fun x (y : TypedWorld _) => y.Holds x t) (fun _ _ _ => TypedWorld.holds) fun a ha _ _ =>
    generateOperand_typed (h a ha)

end Nodes

end Gen

end TypedLowering
