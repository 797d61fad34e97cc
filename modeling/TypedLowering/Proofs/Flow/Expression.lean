import TypedLowering.Lowering.Expression
import TypedLowering.Proofs.Flow.Call
import TypedLowering.Proofs.Flow.Operator

/-!
Names, members, calls and literals yield values that can be read.
-/
namespace TypedLowering
set_option autoImplicit false
open Ssa Ssa.Function

namespace Gen

variable {env : Env} {w : Site} {generate : Generate} {args : List Node} {span : Span}

/-! ## Objects -/

theorem classField_spec {d : ClassDescriptor} {this : ObjectRef} {member : String}
    (ht : w.Holds (.object this)) :
    Spec env w (classField d this member span) fun v x => x.Holds v := by
  unfold classField
  split
  · refine .bind (requireAddress_spec ht) fun object x _ ho => .pure ?_
    exact World.holds_assignable.mpr (by simpa [Place.operands] using ho)
  · split
    · exact .unsupported
    · exact .internal

theorem classCall_spec {d : ClassDescriptor} {this : ObjectRef} {member : String}
    {signature : Option Signature} (ht : w.Holds (.object this))
    (hc : ∀ s, signature = some s → Callable env generate s.func)
    (h : ∀ a ∈ args, Yields env generate a) :
    Spec env w (classCall generate d this member args signature span) fun v x => x.Holds v := by
  unfold classCall
  split
  · exact .internal
  · next s =>
    refine .bind functionDecl_spec fun decl x hx _ => ?_
    split
    · refine .bind (requireAddress_spec (Site.holds hx ht)) fun address y _ ha => ?_
      exact emitCall_spec (hc s rfl) (by simpa using ha) h
    · exact emitCall_spec (hc s rfl) (by simp) h

theorem classNew_spec {d : ClassDescriptor} {signature : Option Signature}
    (hc : ∀ s, signature = some s → Callable env generate s.func)
    (h : ∀ a ∈ args, Yields env generate a) :
    Spec env w (classNew generate d args signature span) fun v x => x.Holds v := by
  refine .bind emitI64_spec fun size x hx hs => .bind emitI64_spec fun align y hy ha => ?_
  refine .bind (callSupport_spec (by simp [Site.has hy hs, ha])) fun address z hz haddr => ?_
  have instanceHolds {x : Site} (hx : z ≤ x) : x.Holds (.object (.instanceAt d address)) :=
    World.holds_object.mpr fun a e => by cases e; exact Site.has hx haddr
  split
  · next s _ =>
    refine .bind (emitCall_spec (hc s rfl) (by simpa using haddr) h) fun _ x' hx' _ => ?_
    exact .pure (instanceHolds hx')
  · split
    · exact .bind (.internal (Q := fun _ _ => False)) fun _ _ _ hf => hf.elim
    · exact .pure (instanceHolds (le_refl z))
  · exact .bind (.internal (Q := fun _ _ => False)) fun _ _ _ hf => hf.elim

theorem arrayField_spec {this : ObjectRef} {member : String} (ht : w.Holds (.object this)) :
    Spec env w (arrayField this member span) fun v x => x.Holds v := by
  unfold arrayField
  split
  · refine .bind (requireAddress_spec ht) fun array x _ ha => ?_
    exact .bind (arrayLength_spec ha) fun v y _ hv => .pure (by simpa using hv)
  · exact .fail

theorem arrayCall_spec {l : ArrayLayout} {this : ObjectRef} {member : String}
    (ht : w.Holds (.object this)) (h : ∀ a ∈ args, Yields env generate a) :
    Spec env w (arrayCall generate l this member args span) fun v x => x.Holds v := by
  unfold arrayCall
  split
  · refine .bind (requireAddress_spec ht) fun array x _ ha => ?_
    split
    · exact .fail
    · refine .bind (generateOperand_spec (h _ (by simp))) fun value y hy hv => ?_
      refine .bind (callSupport_spec (by simp [Site.has hy ha, hv])) fun r z _ hr => ?_
      exact .pure (by simpa using hr)
  · split
    · refine .bind (requireAddress_spec ht) fun array x _ ha => ?_
      exact .bind (callSupport_spec (by simpa using ha)) fun v y _ hv => valueOf_spec hv
    · exact .fail

theorem arrayNew_spec {l : ArrayLayout} (h : ∀ a ∈ args, Yields env generate a) :
    Spec env w (arrayNew generate l args span) fun v x => x.Holds v := by
  have finish {m : Gen ValueId} (hm : Spec env w m fun v x => x.Has v) : Spec env w (do
      let length ← m
      return .object (.arrayAt l (← callSupport (.arrayWithLength l.storage) [length] span)))
      fun v x => x.Holds v :=
    .bind hm fun length x _ hl => .bind (callSupport_spec (by simpa using hl)) fun a y _ ha =>
      .pure (World.holds_object.mpr fun b e => by cases e; exact ha)
  unfold arrayNew
  split
  · exact finish emitI32_spec
  · exact finish (generateOperand_spec (h _ (by simp)))
  · exact finish .unsupported

theorem getField_spec {this : ObjectRef} {member : String} (ht : w.Holds (.object this)) :
    Spec env w (getField this member span) fun v x => x.Holds v := by
  unfold getField
  split
  · exact classField_spec ht
  · exact arrayField_spec ht
  · exact mathField_spec

theorem callMethod_spec {this : ObjectRef} {member : String} {signature : Option Signature}
    (ht : w.Holds (.object this)) (hc : ∀ s, signature = some s → Callable env generate s.func)
    (h : ∀ a ∈ args, Yields env generate a) :
    Spec env w (callMethod generate this member args signature span) fun v x => x.Holds v := by
  unfold callMethod
  split
  · exact classCall_spec ht hc h
  · exact arrayCall_spec ht h
  · exact mathCall_spec h

theorem indexObject_spec {this : ObjectRef} {index : Node} (ht : w.Holds (.object this))
    (hi : Yields env generate index) :
    Spec env w (indexObject generate this index span) fun v x => x.Holds v := by
  unfold indexObject
  split
  · refine .bind (requireAddress_spec ht) fun array x _ ha => ?_
    refine .bind (generateOperand_spec hi) fun i y hy hi => .pure ?_
    exact World.holds_assignable.mpr (by simpa [Place.operands] using ⟨Site.has hy ha, hi⟩)
  · exact .unsupported

theorem constructObject_spec {t : StaticType} {signature : Option Signature}
    (hc : ∀ s, signature = some s → Callable env generate s.func)
    (h : ∀ a ∈ args, Yields env generate a) :
    Spec env w (constructObject generate t args signature span) fun v x => x.Holds v := by
  unfold constructObject
  split
  · exact .bind descriptor_outside.outside fun d x _ _ => classNew_spec hc h
  · refine .bind (.ofExcept (Q := fun _ _ => True) fun _ _ => trivial) fun l x _ _ => ?_
    exact arrayNew_spec h
  · exact .unsupported
  · exact .unsupported

/-! ## Literals -/

variable {n : Node}

theorem numericLiteral_spec : Spec env w (numericLiteral n) fun v x => x.Holds v := by
  unfold numericLiteral
  split
  · refine .read rfl (.bind (.ofExcept (Q := fun _ _ => True) fun _ _ => trivial) fun c x _ _ => ?_)
    exact .bind emitConst_spec fun v y _ hv => .pure (by simpa using hv)
  · exact wrongForm_spec

theorem booleanLiteral_spec : Spec env w (booleanLiteral n) fun v x => x.Holds v := by
  unfold booleanLiteral
  split
  · exact .bind emitBool_spec fun v y _ hv => .pure (by simpa using hv)
  · exact wrongForm_spec

theorem undefinedLiteral_spec : Spec env w (undefinedLiteral n) fun v x => x.Holds v := by
  refine .read rfl ?_
  have null {t : StaticType} : Spec env w (do return Value.rvalue (← emitNull) t) fun v x =>
      x.Holds v :=
    .bind emitNull_spec fun v y _ hv => .pure (by simpa using hv)
  split
  · exact null
  · exact null
  · exact null
  · exact .unsupported

theorem arrayOfConstants_spec {l : ArrayLayout} {data : List Constant} :
    Spec env w (arrayOfConstants l data span) fun v x => x.Has v := by
  refine .bind addLiteralGlobal_outside.outside fun global x _ _ => ?_
  refine .bind (emit_spec (by simp)) fun buffer y _ hb => ?_
  refine .bind emitI32_spec fun length z hz hl => ?_
  exact callSupport_spec (by simp [Site.has hz hb, hl])

theorem arrayOfNodes_spec {l : ArrayLayout} (h : ∀ a ∈ args, Yields env generate a) :
    Spec env w (arrayOfNodes generate l args span) fun v x => x.Has v :=
  .bind (operands_spec h) fun _ _ _ hes => arrayOfOperands_spec hes

theorem constantData_spec {l : ArrayLayout} :
    Spec env w (constantData l args) fun _ _ => True := by
  unfold constantData
  split
  · exact .pure trivial
  · exact .read rfl (.ofExcept fun _ _ => trivial)

theorem arrayLiteral_spec
    (h : ∀ elements, n.form = .arrayLiteral elements → ∀ a ∈ elements, Yields env generate a) :
    Spec env w (arrayLiteral generate n) fun v x => x.Holds v := by
  unfold arrayLiteral
  split
  · next elements hn =>
    refine .read rfl (.bind (.ofExcept (Q := fun _ _ => True) fun _ _ => trivial) fun l x _ _ => ?_)
    refine .bind constantData_spec fun data y _ _ => ?_
    have finish {m : Gen ValueId} (hm : Spec env y m fun v x => x.Has v) :
        Spec env y (do return Value.object (.arrayAt l (← m))) fun v x => x.Holds v :=
      .bind hm fun a z _ ha => .pure (World.holds_object.mpr fun b e => by cases e; exact ha)
    split
    · refine .read rfl ?_
      split
      · exact finish arrayOfConstants_spec
      · exact finish (arrayOfNodes_spec (h elements hn))
    · exact finish (arrayOfNodes_spec (h elements hn))
  · exact wrongForm_spec

/-! ## Names, members and calls -/

theorem identifier_spec : Spec env w (identifier n) fun v x => x.Holds v := by
  unfold identifier
  split
  · next name hn =>
    refine .read rfl ?_
    split
    · next v t hb => exact valueOf_spec (w.fits.scope name _ hb)
    · next ptr lowered t hb =>
      have hv : w.Has ptr := w.fits.scope name _ hb
      exact .pure (World.holds_assignable.mpr (by simpa [Place.operands] using hv))
    · refine .read rfl ?_
      split
      · exact .pure (World.holds_object.mpr fun a e => by cases e)
      · refine .bind descriptor_outside.outside fun d x _ _ => .pure ?_
        exact World.holds_object.mpr fun a e => by cases e
      · exact .unsupported
      · exact .internal
  · exact wrongForm_spec

theorem this_spec : Spec env w (this n) fun v x => x.Holds v := by
  refine .read rfl ?_
  split
  · next o ho => exact .pure (World.holds_object.mpr fun a ha => .inl (w.fits.this o a ho ha))
  · exact .internal

theorem member_spec (h : ∀ object property, n.form = .member object property →
    Yields env generate object) : Spec env w (member generate n) fun v x => x.Holds v := by
  unfold member
  split
  · next object property hn =>
    refine .bind (h object property hn w) fun v x _ hv => ?_
    exact .bind (intoObject_spec hv) fun o y _ ho => getField_spec ho
  · exact wrongForm_spec

theorem index_spec (h : ∀ object i, n.form = .index object i →
    Yields env generate object ∧ Yields env generate i) :
    Spec env w (index generate n) fun v x => x.Holds v := by
  unfold index
  split
  · next object i hn =>
    obtain ⟨ho, hi⟩ := h object i hn
    refine .bind (ho w) fun v x _ hv => ?_
    exact .bind (intoObject_spec hv) fun o y _ ho => indexObject_spec ho hi
  · exact wrongForm_spec

theorem call_spec
    (hm : ∀ callee args signature object property, n.form = .call callee args signature →
      callee.form = .member object property → Yields env generate object)
    (h : ∀ callee args signature, n.form = .call callee args signature →
      ∀ a ∈ args, Yields env generate a)
    (hc : ∀ func, Callable env generate func) :
    Spec env w (call generate n) fun v x => x.Holds v := by
  unfold call
  split
  · next callee args signature hn =>
    split
    · next object property ho =>
      refine .bind (hm _ _ _ _ _ hn ho w) fun v x _ hv => ?_
      refine .bind (intoObject_spec hv) fun o y _ ho => ?_
      exact callMethod_spec ho (fun s _ => hc s.func) (h _ _ _ hn)
    · split
      · next s => exact emitCall_spec (hc s.func) (by simp) (h _ _ _ hn)
      · exact .internal
  · exact wrongForm_spec

theorem construct_spec
    (h : ∀ callee args signature, n.form = .construct callee args signature →
      ∀ a ∈ args, Yields env generate a)
    (hc : ∀ func, Callable env generate func) :
    Spec env w (construct generate n) fun v x => x.Holds v := by
  unfold construct
  split
  · next callee args signature hn =>
    exact .read rfl (constructObject_spec (fun s _ => hc s.func) (h _ _ _ hn))
  · exact wrongForm_spec

end Gen

end TypedLowering
