import TypedLowering.Lowering.Expression
import TypedLowering.Proofs.Typing.Call
import TypedLowering.Proofs.Typing.Operator

/-!
Members, calls, names and literals at their types. A call that names no member passes no receiver
and `new` passes one; a tree where the functions called agree with that is one whose signatures fit.
-/
namespace TypedLowering
set_option autoImplicit false
open Ssa Ssa.Function

/-! ## Signatures that fit -/

/-- Whether the function that a call without member names has no receiver, and the one that `new`
names has one. -/
def Node.signatureFits (p : Program) (n : Node) : Bool :=
  match n.form with
  | .call callee _ (some s) =>
    callee.kind = .member || (p.function? s.func).all fun decl => !decl.isInstance
  | .construct _ _ (some s) => (p.function? s.func).all fun decl => decl.isInstance
  | _ => true

/-- A program whose signatures fit everywhere. -/
abbrev Program.SignaturesFit (p : Program) : Prop := p.Everywhere fun n => n.signatureFits p = true

theorem Node.isInstance_of_call {p : Program} {n callee : Node} {args : List Node} {s : Signature}
    {decl : FunctionDecl} (h : n.signatureFits p = true) (hn : n.form = .call callee args (some s))
    (hc : callee.kind ≠ .member) (hdecl : p.function? s.func = some decl) :
    decl.isInstance = false := by
  unfold signatureFits at h
  rw [hn] at h
  simpa [hc, hdecl] using h

theorem Node.isInstance_of_construct {p : Program} {n callee : Node} {args : List Node}
    {s : Signature} {decl : FunctionDecl} (h : n.signatureFits p = true)
    (hn : n.form = .construct callee args (some s)) (hdecl : p.function? s.func = some decl) :
    decl.isInstance = true := by
  unfold signatureFits at h
  rw [hn] at h
  simpa [hdecl] using h

/-- Fields are numbered as they are laid out. -/
theorem ClassDescriptor.getElem?_of_field? {d : ClassDescriptor} {name : String} {f : FieldInfo}
    {i : Nat} (h : d.field? name = some (f, i)) : d.fields[i]? = some f :=
  List.mem_zipIdx_iff_getElem?.mp (List.mem_of_find?_eq_some h)

namespace Gen

variable {env : Env} {w : TypedWorld env.program} {generate : Generate} {args : List Node}
  {span : Span}

/-! ## `Math` -/

theorem numberOperands_typed (h : ∀ a ∈ args, Types env generate a) :
    Spec env w (numberOperands generate args) fun vs x =>
      vs.length = args.length ∧ ∀ v ∈ vs, x.Carries v .f64 :=
  (operands_typed h).mono fun _ _ _ hvs =>
    ⟨hvs.1, fun v hv => (hvs.2 v hv).carries rfl⟩

theorem mathOperands_typed {member : String} {arity : Nat} (h : ∀ a ∈ args, Types env generate a) :
    Spec env w (mathOperands generate member args arity span) fun vs x =>
      vs.length = arity ∧ ∀ v ∈ vs, x.Carries v .f64 := by
  unfold mathOperands
  split
  · exact .fail
  · split
    · exact .unsupported
    · exact (numberOperands_typed h).mono fun _ _ _ hvs => ⟨by omega, hvs.2⟩

/-- Operands of one type are what a function of as many parameters takes. -/
theorem forall₂_replicate {p : Program} {w : TypedWorld p} {vs : List ValueId} {n : Nat} {t : Ty}
    (hn : vs.length = n) (hvs : ∀ v ∈ vs, w.Carries v t) :
    List.Forall₂ w.Carries vs (List.replicate n t) := by
  subst hn
  induction vs with
  | nil => exact .nil
  | cons v vs ih =>
    exact .cons (hvs v List.mem_cons_self) (ih fun u hu => hvs u (List.mem_cons_of_mem v hu))

/-- A call of a function of numbers. -/
theorem callMath_typed {symbol : String} {arity : Nat} {attrs : Attributes} {vs : List ValueId}
    (hn : vs.length = arity) (hvs : ∀ v ∈ vs, w.Carries v .f64) : Spec env w (do
      let callee ← declareMath symbol arity attrs span
      callFunction callee vs attrs) fun v x => x.Carries v .f64 :=
  .bind declareMath_typed fun _ _ hx hc => callFunction_typed hc
    (forall₂_replicate hn fun v hv => TypedWorld.carries hx (hvs v hv))

theorem emitRound_typed {a : ValueId} (ha : w.Carries a .f64) :
    Spec env w (emitRound a span) fun v x => x.Carries v .f64 := by
  refine .read rfl (.bind declareMath_typed fun floor x₁ h₁ hfloor => ?_)
  have ha := TypedWorld.carries h₁ ha
  refine .bind (callFunction_typed hfloor (.cons ha .nil)) fun down x₂ h₂ hdown => ?_
  have ha := TypedWorld.carries h₂ ha
  refine .bind (emitBinary_typed rfl ha hdown) fun fraction x₃ h₃ hfraction => ?_
  refine .bind emitDouble_typed fun half x₄ h₄ hhalf => ?_
  have hfraction := TypedWorld.carries h₄ hfraction
  refine .bind (emit_carries (d := .fcmp .oge fraction half) rfl fun hagree =>
    ⟨rfl, (hfraction hagree).hasType, (hhalf hagree).hasType⟩) fun roundUp x₅ h₅ hroundUp => ?_
  refine .bind emitDouble_typed fun one x₆ h₆ hone => ?_
  have hdown := TypedWorld.carries (h₃.trans (h₄.trans (h₅.trans h₆))) hdown
  refine .bind (emitBinary_typed rfl hdown hone) fun up x₇ h₇ hup => ?_
  exact emitSelect_typed (TypedWorld.carries (h₆.trans h₇) hroundUp) hup
    (TypedWorld.carries h₇ hdown)

theorem mathField_typed {member : String} :
    Spec env w (mathField member span) fun v x => x.Yields v := by
  unfold mathField
  split
  · exact (rvalue_typed rfl emitDouble_typed).yields
  · exact .unsupported
  · exact .fail

theorem mathCall_typed {member : String} (h : ∀ a ∈ args, Types env generate a) :
    Spec env w (mathCall generate member args span) fun v x => x.Yields v := by
  suffices hm : Spec env w (mathCallOperand generate member args span) fun v x => x.Carries v .f64 from
    (rvalue_typed rfl hm).yields
  unfold mathCallOperand
  split
  · refine .bind (mathOperands_typed h) fun vs x _ hvs => .read rfl ?_
    exact callMath_typed hvs.1 hvs.2
  · refine .bind (mathOperands_typed h) fun vs x _ hvs => ?_
    exact callMath_typed hvs.1 hvs.2
  · refine .bind (numberOperands_typed h) fun vs x _ hvs => ?_
    split
    · exact emitDouble_typed
    · next first rest =>
      refine .read rfl (.bind declareMath_typed fun callee y hy hc => ?_)
      have hvs (v : ValueId) (hv : v ∈ first :: rest) := TypedWorld.carries hy (hvs.2 v hv)
      refine Spec.foldlM (P := fun v (x : TypedWorld _) => x.Carries v .f64)
        (hvs first List.mem_cons_self) fun next hnext acc z hz hacc => ?_
      have hnext := TypedWorld.carries hz (hvs next (List.mem_cons_of_mem _ hnext))
      exact callFunction_typed (TypedWorld.calls hz hc) (.cons hacc (.cons hnext .nil))
  · refine .bind (mathOperands_typed h) fun vs x _ hvs => ?_
    split
    · next x vs' => exact emitRound_typed (hvs.2 _ List.mem_cons_self)
    · exact .throw
  · refine .bind (mathOperands_typed h) fun _ _ _ _ => ?_
    exact callSupport_typed (fun _ => rfl) .nil
  · exact .unsupported
  · exact .fail

/-! ## Objects -/

section Objects

variable {this : ObjectRef} {member : String}

theorem classField_typed {d : ClassDescriptor} (hd : w.Ensures fun m _ => d.LaidOut m)
    (ht : w.Refers this) : Spec env w (classField d this member span) fun v x => x.Yields v := by
  unfold classField
  split
  · next field index hfield =>
    have hget := ClassDescriptor.getElem?_of_field? hfield
    refine .bind (requireAddress_typed ht) fun object x hx hobject => .pure fun hagree => ?_
    have hlaid := (hd ((TypedWorld.later hx).agrees hagree)).prolong (TypedWorld.later hx).module
    obtain ⟨s, hs, hfields⟩ := hlaid.struct
    refine ⟨hlaid.field (List.mem_of_getElem? hget), hobject hagree, s, hs, ?_⟩
    rw [hfields, List.getElem?_map, hget]
    rfl
  · split
    · exact .unsupported
    · exact .internal

theorem arrayField_typed (ht : w.Refers this) :
    Spec env w (arrayField this member span) fun v x => x.Yields v := by
  unfold arrayField
  split
  · exact .bind (requireAddress_typed ht) fun array x _ ha =>
      (rvalue_typed rfl (arrayLength_typed ha)).yields
  · exact .fail

theorem getField_typed (ht : w.Refers this) :
    Spec env w (getField this member span) fun v x => x.Yields v := by
  unfold getField
  split
  · next d hk =>
    refine classField_typed (fun hagree => ?_) ht
    have hkind := (ht hagree).kind
    rwa [hk] at hkind
  · exact arrayField_typed ht
  · exact mathField_typed

theorem arrayCall_typed {l : ArrayLayout} (hl : w.Ensures fun _ _ => l.Represents)
    (ht : w.Refers this) (h : ∀ a ∈ args, Types env generate a) :
    Spec env w (arrayCall generate l this member args span) fun v x => x.Yields v := by
  have element {x : TypedWorld env.program} {v : ValueId} (hx : w ≤ x) :
      (x.Holds v l.element → x.Carries v l.storage.type) ∧
        (x.Carries v l.storage.type → x.Holds v l.element) := by
    refine ⟨fun hv hagree => ?_, fun hv hagree => ?_⟩
    · exact (hv hagree).isOperand (hl ((TypedWorld.later hx).agrees hagree))
    · exact ⟨_, hl ((TypedWorld.later hx).agrees hagree), hv hagree⟩
  unfold arrayCall
  split
  · refine .bind (requireAddress_typed ht) fun array x hx ha => ?_
    split
    · exact .fail
    · refine .bind (generateOperand_typed (h _ (by simp))) fun value y hy hv => ?_
      have hv := (element (hx.trans hy)).1 hv
      exact (rvalue_typed rfl (callSupport_typed (fun _ => rfl)
        (.cons (TypedWorld.carries hy ha) (.cons hv .nil)))).yields
  · split
    · refine .bind (requireAddress_typed ht) fun array x hx ha => ?_
      refine .bind (callSupport_typed (fun _ => rfl) (.cons ha .nil)) fun v y hy hv => ?_
      exact (valueOf_typed ((element (hx.trans hy)).2 hv)).yields
    · exact .fail

theorem classCall_typed {d : ClassDescriptor} {signature : Option Signature}
    (hg : Sound env generate) (ht : w.Refers this) (h : ∀ a ∈ args, Types env generate a) :
    Spec env w (classCall generate d this member args signature span) fun v x => x.Yields v := by
  unfold classCall
  split
  · exact .internal
  · refine .bind functionDecl_typed fun decl x hx hdecl => ?_
    split
    · next hi =>
      refine .bind (requireAddress_typed (TypedWorld.refers hx ht)) fun address y _ ha => ?_
      refine emitCall_yields hg (fun decl' hdecl' => ?_) (fun a e => by cases e; exact ha) h
      cases hdecl.symm.trans hdecl'
      exact hi
    · next hi =>
      refine emitCall_yields hg (fun decl' hdecl' => ?_) (fun a e => by cases e) h
      cases hdecl.symm.trans hdecl'
      simpa using hi

theorem callMethod_typed {signature : Option Signature} (hg : Sound env generate)
    (ht : w.Refers this) (h : ∀ a ∈ args, Types env generate a) :
    Spec env w (callMethod generate this member args signature span) fun v x => x.Yields v := by
  unfold callMethod
  split
  · exact classCall_typed hg ht h
  · next l hk =>
    refine arrayCall_typed (fun hagree => ?_) ht h
    have hkind := (ht hagree).kind
    rwa [hk] at hkind
  · exact mathCall_typed h

theorem indexObject_typed {index : Node} (ht : w.Refers this) (hi : Types env generate index) :
    Spec env w (indexObject generate this index span) fun v x => x.Yields v := by
  unfold indexObject
  split
  · next l hk =>
    refine .bind (requireAddress_typed ht) fun array x hx ha => ?_
    refine .bind (generateOperand_typed hi) fun i y hy hi => .pure fun hagree => ?_
    have hkind := (ht ((TypedWorld.later (hx.trans hy)).agrees hagree)).kind
    rw [hk] at hkind
    exact ⟨hkind, TypedWorld.carries hy ha hagree, (hi hagree).isOperand rfl⟩
  · exact .unsupported

theorem arrayAt_typed {l : ArrayLayout} {m : Gen ValueId} (hl : l.Represents)
    (hm : Spec env w m fun v x => x.Carries v .ptr) :
    Spec env w (do return Value.object (.arrayAt l (← m))) fun v x => x.Yields v :=
  .bind hm fun a x _ ha => .pure fun hagree =>
    ⟨hl, rfl, fun e => by cases e; exact ha hagree⟩

theorem arrayNew_typed {l : ArrayLayout} (hl : l.Represents)
    (h : ∀ a ∈ args, Types env generate a) :
    Spec env w (arrayNew generate l args span) fun v x => x.Yields v := by
  have finish {m : Gen ValueId} (hm : Spec env w m fun v x => x.Carries v .i32) : Spec env w (do
      let length ← m
      return .object (.arrayAt l (← callSupport (.arrayWithLength l.storage) [length] span)))
      fun v x => x.Yields v :=
    .bind hm fun length x _ hn =>
      arrayAt_typed hl (callSupport_typed (fun _ => rfl) (.cons hn .nil))
  unfold arrayNew
  split
  · exact finish emitI32_typed
  · exact finish ((generateOperand_typed (h _ (by simp))).mono fun _ _ _ hv =>
      hv.carries rfl)
  · exact finish .unsupported

theorem classNew_typed {d : ClassDescriptor} {signature : Option Signature}
    (hd : w.Ensures fun m _ => d.LaidOut m) (hg : Sound env generate)
    (hs : ∀ s decl, signature = some s → env.program.function? s.func = some decl →
      decl.isInstance = true) (h : ∀ a ∈ args, Types env generate a) :
    Spec env w (classNew generate d args signature span) fun v x => x.Yields v := by
  refine .bind emitI64_typed fun size x hx hsize => .bind emitI64_typed fun align y hy halign => ?_
  refine .bind (callSupport_typed (fun _ => rfl) (.cons (TypedWorld.carries hy hsize)
    (.cons halign .nil))) fun address z hz haddress => ?_
  have made {x' : TypedWorld env.program} (hx' : z ≤ x') :
      x'.Yields (.object (.instanceAt d address)) := fun hagree => by
    have hlater := TypedWorld.later (hx.trans (hy.trans (hz.trans hx')))
    refine ⟨(hd (hlater.agrees hagree)).prolong hlater.module, rfl, fun e => ?_⟩
    cases e
    exact TypedWorld.carries hx' haddress hagree
  split
  · next s _ =>
    refine .bind (emitCall_yields hg (fun decl hdecl => hs s decl rfl hdecl)
      (fun a e => by cases e; exact haddress) h) fun _ x' hx' _ => ?_
    exact .pure (made hx')
  · split
    · exact .bind (.internal (Q := fun _ _ => False)) fun _ _ _ hf => hf.elim
    · exact .pure (made (le_refl z))
  · exact .bind (.internal (Q := fun _ _ => False)) fun _ _ _ hf => hf.elim

theorem constructObject_typed {t : StaticType} {signature : Option Signature}
    (hg : Sound env generate)
    (hs : ∀ s decl, signature = some s → env.program.function? s.func = some decl →
      decl.isInstance = true) (h : ∀ a ∈ args, Types env generate a) :
    Spec env w (constructObject generate t args signature span) fun v x => x.Yields v := by
  unfold constructObject
  split
  · exact .bind descriptor_unit.of_unit fun d x _ hd => classNew_typed hd hg hs h
  · refine .bind (.ofExcept (Q := fun l _ => l.Represents) fun l hl => (ArrayLayout.of_ok hl).1)
      fun l x _ hl => arrayNew_typed hl h
  · exact .unsupported
  · exact .unsupported

end Objects

/-! ## Literals and names -/

variable {n : Node}

theorem numericConstant_ok {text : String} {t : StaticType} {c : Constant}
    (h : numericConstant text t span = .ok c) : t.lowered .dummy = .ok c.type := by
  unfold numericConstant at h
  split at h
  · split at h <;> cases h
    rfl
  · split at h <;> cases h
    rfl
  · cases h

theorem numericLiteral_typed : Spec env w (numericLiteral n) fun v x => x.Yields v := by
  unfold numericLiteral
  split
  · refine .read rfl (.bind (.ofExcept (Q := fun c _ =>
      (n.type.substitute w.state.frame.subst).lowered .dummy = .ok c.type) fun c hc =>
      numericConstant_ok hc) fun c x _ hc => ?_)
    exact (rvalue_typed hc emitConst_typed).yields
  · exact wrongForm_typed

theorem booleanLiteral_typed : Spec env w (booleanLiteral n) fun v x => x.Yields v := by
  unfold booleanLiteral
  split
  · exact (rvalue_typed rfl emitBool_typed).yields
  · exact wrongForm_typed

theorem undefinedLiteral_typed : Spec env w (undefinedLiteral n) fun v x => x.Yields v := by
  refine .read rfl ?_
  split
  · next ht => exact (rvalue_typed (by rw [ht]; rfl) emitNull_typed).yields
  · next ht => exact (rvalue_typed (by rw [ht]; rfl) emitNull_typed).yields
  · next ht => exact (rvalue_typed (by rw [ht]; rfl) emitNull_typed).yields
  · exact .unsupported

theorem arrayOfConstants_typed {l : ArrayLayout} {data : List Constant} :
    Spec env w (arrayOfConstants l data span) fun v x => x.Carries v .ptr := by
  refine .bind addLiteralGlobal_unit.of_unit fun global x _ _ => ?_
  refine .bind (emit_carries (d := .globalAddr global) rfl fun _ => rfl) fun buffer y _ hb => ?_
  refine .bind emitI32_typed fun length z hz hn => ?_
  exact callSupport_typed (fun _ => rfl) (.cons (TypedWorld.carries hz hb) (.cons hn .nil))

theorem arrayOfNodes_typed {l : ArrayLayout} (h : ∀ a ∈ args, Types env generate a) :
    Spec env w (arrayOfNodes generate l args span) fun v x => x.Carries v .ptr :=
  .bind (operands_typed h) fun _ _ _ _ => arrayOfOperands_typed

theorem constantData_typed {l : ArrayLayout} :
    Spec env w (constantData l args) fun _ _ => True := by
  unfold constantData
  split
  · exact .pure trivial
  · exact .read rfl (.ofExcept fun _ _ => trivial)

theorem identifier_typed : Spec env w (identifier n) fun v x => x.Yields v := by
  unfold identifier
  split
  · next name _ =>
    refine .read rfl ?_
    split
    · next x t hb =>
      have hx : w.Holds x t := fun hagree => (w.fits hagree).scope hb
      exact (valueOf_typed hx).yields
    · next ptr lowered t hb => exact .pure fun hagree => (w.fits hagree).scope hb
    · refine .read rfl ?_
      split
      · exact .pure fun _ => ⟨trivial, rfl, fun e => by cases e⟩
      · exact .bind descriptor_unit.of_unit fun d x _ hd => .pure fun hagree =>
          ⟨hd hagree, rfl, fun e => by cases e⟩
      · exact .unsupported
      · exact .internal
  · exact wrongForm_typed

theorem this_typed : Spec env w (this n) fun v x => x.Yields v := by
  refine .read rfl ?_
  split
  · next o ho => exact .pure fun hagree => (w.fits hagree).this ho
  · exact .internal

section Parts

variable (hp : ∀ q c, (q, c) ∈ n.form.parts → Types env generate c)
include hp

theorem arrayLiteral_typed : Spec env w (arrayLiteral generate n) fun v x => x.Yields v := by
  unfold arrayLiteral
  split
  · next elements hform =>
    have h : ∀ a ∈ elements, Types env generate a := fun a ha =>
      hp .expression a (by simp [hform, Form.parts, ha])
    refine .read rfl (.bind (.ofExcept (Q := fun l _ => l.Represents) fun l hl =>
      (ArrayLayout.of_ok hl).1) fun l x _ hl => ?_)
    refine .bind constantData_typed fun data y _ _ => ?_
    split
    · refine .read rfl ?_
      split
      · exact arrayAt_typed hl arrayOfConstants_typed
      · exact arrayAt_typed hl (arrayOfNodes_typed h)
    · exact arrayAt_typed hl (arrayOfNodes_typed h)
  · exact wrongForm_typed

theorem member_typed : Spec env w (member generate n) fun v x => x.Yields v := by
  unfold member
  split
  · next object property hform =>
    refine .bind (hp .expression object (by simp [hform, Form.parts]) w) fun v x _ hv => ?_
    exact .bind (intoObject_typed hv) fun o y _ ho => getField_typed ho
  · exact wrongForm_typed

theorem index_typed : Spec env w (index generate n) fun v x => x.Yields v := by
  unfold index
  split
  · next object i hform =>
    refine .bind (hp .expression object (by simp [hform, Form.parts]) w) fun v x _ hv => ?_
    refine .bind (intoObject_typed hv) fun o y _ ho => ?_
    exact indexObject_typed ho (hp .expression i (by simp [hform, Form.parts]))
  · exact wrongForm_typed

theorem call_typed (hg : Sound env generate) (hs : n.signatureFits env.program = true)
    (ho : ∀ callee args s object property, n.form = .call callee args s →
      callee.form = .member object property → Types env generate object) :
    Spec env w (call generate n) fun v x => x.Yields v := by
  unfold call
  split
  · next callee args signature hform =>
    have h : ∀ a ∈ args, Types env generate a := fun a ha =>
      hp .expression a (by simp [hform, Form.parts, ha])
    split
    · next object property hcallee =>
      refine .bind (ho _ _ _ _ _ hform hcallee w) fun v x _ hv => ?_
      exact .bind (intoObject_typed hv) fun o y _ ho => callMethod_typed hg ho h
    · next hcallee =>
      split
      · next signature =>
        refine emitCall_yields hg (fun decl hdecl => ?_) (fun a e => by cases e) h
        refine Node.isInstance_of_call hs hform (fun hkind => ?_) hdecl
        cases hc : callee.form with
        | member object property => exact hcallee object property hc
        | _ =>
          unfold Node.kind at hkind
          rw [hc] at hkind
          cases hkind
      · exact .internal
  · exact wrongForm_typed

theorem construct_typed (hg : Sound env generate) (hs : n.signatureFits env.program = true) :
    Spec env w (construct generate n) fun v x => x.Yields v := by
  unfold construct
  split
  · next callee args signature hform =>
    refine .read rfl (constructObject_typed hg (fun s decl e hdecl => ?_) fun a ha =>
      hp .expression a (by simp [hform, Form.parts, ha]))
    subst e
    exact Node.isInstance_of_construct hs hform hdecl
  · exact wrongForm_typed

end Parts

end Gen

end TypedLowering
