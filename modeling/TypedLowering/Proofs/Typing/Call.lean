import TypedLowering.Lowering.Call
import TypedLowering.Proofs.Typing.Conversion

/-!
Calls. A call passes operands of the types that the specialization asks for. Its callee has the
signature of the specialization: either it was generated for it, or for an earlier request with the
same symbol, which is then a request for the same specialization.
-/
namespace TypedLowering
set_option autoImplicit false
open Ssa Ssa.Function

/-! ## The start of a function -/

/-- The state in which the body of a specialization is generated. -/
theorem TypedUnit.exists_started {p : Program} (w : TypedUnit p) {sp : Specialization}
    (hsp : sp.Declared (fun _ => True) p) {params : List Ty} {ret : Ty} {span : Span}
    (hparams : sp.loweredParams = .ok params) (hret : sp.ret.lowered span = .ok ret) :
    ∃ x : TypedWorld p, x.state = w.state.started sp (sp.symbol p) params ret ∧
      x.fn = (shell (sp.symbol p) params ret .internal).addBlock "entry" ∧
      w.state.unit.Later x.state.unit := by
  have hlater : w.state.unit.Later (w.state.started sp (sp.symbol p) params ret).unit :=
    ⟨Module.prolongs_addFunction _ _, List.suffix_cons _ _⟩
  refine ⟨⟨⟨_, w.recorded.started hsp hparams hret, fun ha => ?_⟩, _,
    Module.function?_addFunction_next _ _, fun _ => ?_⟩, rfl, rfl, hlater⟩
  · exact (w.typed (hlater.agrees ha)).addFunction (wellTyped_of_params rfl fun b => by
      rw [exit_addBlock]; rfl) rfl rfl rfl
  · exact {
      scope := fun hn => by cases hn
      this := fun ho => by cases ho
      ret := StaticType.lowered_span hret _ }

theorem Ssa.Function.isOperand_param {name : String} {params : List Ty} {ret : Ty} {i : Nat} {t : Ty}
    (h : params[i]? = some t) :
    ((shell name params ret .internal).addBlock "entry").IsOperand (Function.param i) t := by
  refine ⟨⟨.param i, t⟩, ?_, rfl, rfl⟩
  rw [definition?_of_params (f := (shell name params ret .internal).addBlock "entry") rfl]
  show params[i]?.map _ = _
  rw [h]
  rfl

namespace Gen

variable {env : Env} {p : Program} {w : TypedWorld p} {generate : Generate} {span : Span}

/-! ## Bodies -/

/-- A name gets a slot of its type. -/
theorem bindLocal_typed {name : String} {x : ValueId} {t : StaticType} (hx : w.Holds x t) :
    Spec env w (bindLocal name x t span) fun _ _ => True := by
  refine .bind layout_typed ?_
  rintro lowered _ - ⟨ht, rfl⟩
  refine .bind emitSlot_typed fun slot y hy hslot => ?_
  have hx := (TypedWorld.holds hy hx).carries ht
  refine .bind (emitStore_typed hx fun _ => ⟨_, hslot, rfl, fun _ => rfl⟩) fun _ z hz _ => ?_
  refine modifyFrame_typed rfl fun _ hfits => ⟨fun {n b} hb => ?_, hfits.this, hfits.ret⟩
  by_cases hname : name = n
  · subst hname
    cases (Dict.get?_insert_self _ _ _).symm.trans hb
    exact ⟨ht, (TypedWorld.prolongs hz).values hslot⟩
  · exact hfits.scope ((Dict.get?_insert_of_ne _ _ hname).symm.trans hb)

theorem finishBody_typed : Spec env w finishBody fun _ _ => True := by
  refine .read rfl ?_
  split
  · refine .read rfl ?_
    split
    · next hvoid =>
      refine terminate_typed fun ha => ?_
      have hret := (w.fits ha).ret
      rw [show w.state.frame.returnType = .void from hvoid] at hret
      exact (Except.ok.inj hret).symm
    · exact terminate_typed fun _ => trivial
  · exact .pure trivial

section Program

variable {w : TypedWorld env.program}

/-- The supplied parameters are operands of their types, from some low-level parameter on. -/
def Supplied (w : TypedWorld p) (next : Nat) (params : List ResolvedParam) : Prop :=
  ∀ i q, (params.filter (·.supplied))[i]? = some q → w.Holds (Function.param (next + i)) q.type

theorem Supplied.later {w x : TypedWorld p} {next : Nat} {params : List ResolvedParam}
    (h : Supplied w next params) (hx : w ≤ x) : Supplied x next params :=
  fun i q hq => TypedWorld.holds hx (h i q hq)

theorem bindParams_typed {params : List ResolvedParam}
    (hd : ∀ q ∈ params, ∀ d, q.default = some d → Types env generate d) {next : Nat}
    (hs : Supplied w next params) : Spec env w (bindParams generate next params) fun _ _ => True := by
  induction params generalizing next w with
  | nil => exact .pure trivial
  | cons q rest ih =>
    have hrest : ∀ r ∈ rest, ∀ d, r.default = some d → Types env generate d :=
      fun r hr => hd r (List.mem_cons_of_mem q hr)
    unfold bindParams
    split
    · next hsup =>
      unfold Supplied at hs
      rw [List.filter_cons_of_pos hsup] at hs
      refine .bind (bindLocal_typed (hs 0 q rfl)) fun _ x hx _ => ih hrest fun i r hr => ?_
      rw [Nat.add_assoc, Nat.add_comm 1 i]
      exact TypedWorld.holds hx (hs (i + 1) r hr)
    · next hsup =>
      unfold Supplied at hs
      rw [List.filter_cons_of_neg hsup] at hs
      split
      · next d hdef =>
        refine .bind (generateOperand_typed (hd q List.mem_cons_self d hdef)) fun a x hx ha => ?_
        refine .bind (bindLocal_typed ha) fun _ y hy _ => ih hrest ?_
        exact Supplied.later hs (hx.trans hy)
      · exact .internal

/-- A function whose defaults and body are generated at their types. -/
def Sound (env : Env) (generate : Generate) : Prop :=
  ∀ func decl, env.program.function? func = some decl →
    (∀ q ∈ decl.params, ∀ d, q.default = some d → Types env generate d) ∧
      ∀ body, decl.body = some body → Types env generate body

theorem generateBody_typed {sp : Specialization} {body : Node}
    (hd : ∀ q ∈ sp.params, ∀ d, q.default = some d → Types env generate d)
    (hb : Types env generate body) (ht : sp.isInstance = true → w.Carries (Function.param 0) .ptr)
    (hs : Supplied w (if sp.isInstance then 1 else 0) sp.params) :
    Spec env w (generateBody generate sp body span) fun _ _ => True := by
  have rest {next : Nat} (x : TypedWorld env.program) (hs : Supplied x next sp.params) :
      Spec env x (do
        bindParams generate next sp.params
        let _ ← generate body
        finishBody) fun _ _ => True :=
    .bind (bindParams_typed hd hs) fun _ y _ _ => .bind (hb y) fun _ _ _ _ => finishBody_typed
  unfold generateBody
  dsimp only
  split
  · next hi =>
    rw [if_pos hi] at hs
    split
    · exact .bind (.internal (Q := fun _ _ => False)) fun _ _ _ h => h.elim
    · refine .bind descriptor_unit.of_unit fun d x hx hlaid => ?_
      refine .bind (modifyFrame_typed rfl fun ha hfits => ⟨hfits.scope, fun {o} ho => ?_, hfits.ret⟩)
        fun _ y hy _ => ?_
      · cases ho
        refine ⟨hlaid ha, rfl, fun hadr => ?_⟩
        cases hadr
        exact TypedWorld.carries hx (ht hi) ha
      · exact rest y (hs.later (hx.trans hy))
  · next hi =>
    rw [if_neg hi] at hs
    exact rest w hs

end Program

/-! ## Specializations -/

/-- The parameters of a new function are those that the specialization supplies. -/
theorem supplied_of_loweredParams {sp : Specialization} {params : List Ty} {ret : Ty}
    (hparams : sp.loweredParams = .ok params)
    (hfn : w.fn = (shell (sp.symbol p) params ret .internal).addBlock "entry") :
    (sp.isInstance = true → w.Carries (Function.param 0) .ptr) ∧
      Supplied w (if sp.isInstance then 1 else 0) sp.params := by
  obtain ⟨rest, rfl, hrest⟩ := Specialization.loweredParams_ok hparams
  refine ⟨fun hi _ => ?_, fun i q hq _ => ?_⟩
  · rw [hfn]
    exact isOperand_param (by rw [if_pos hi]; rfl)
  · obtain ⟨t, ht, hlowered⟩ : ∃ t, rest[i]? = some t ∧ q.type.lowered q.span = .ok t := by
      obtain ⟨hi, hget⟩ := List.getElem?_eq_some_iff.mp hq
      have hi' : i < rest.length := hrest.length_eq ▸ hi
      refine ⟨rest[i], List.getElem?_eq_getElem hi', ?_⟩
      have h := hrest.get (i := i) hi hi'
      rw [← hget]
      exact h
    refine ⟨t, StaticType.lowered_span hlowered _, ?_⟩
    rw [hfn]
    refine isOperand_param ?_
    cases sp.isInstance
    · simpa using ht
    · simpa [Nat.add_comm 1 i] using ht

theorem Spec.of_leads {α W : Type} [CodeWorld W] {w : W} {m : Gen α} {Q : α → W → Prop}
    (h : Leads env (CodeWorld.state w) m
      (fun a s => ∃ x : W, CodeWorld.state x = s ∧ w ≤ x ∧ Q a x) fun _ _ => True) :
    Spec env w m Q := fun _ _ hm => h.ok hm

/-- The function of a specialization has its low-level signature. -/
theorem specialize_unit {w : TypedUnit env.program} {sp : Specialization} {decl : FunctionDecl}
    {argCount : Nat} {at' : Span} (hg : Sound env generate)
    (hdecl : env.program.function? sp.func = some decl)
    (hres : sp.Resolves env.program sp.func decl sp.typeArgs argCount at') :
    Spec env w (specialize generate sp span) fun id x =>
      x.Ensures fun m => ∃ f, m.function? id = some f ∧ sp.Shapes f := by
  have declared {decl' : FunctionDecl} {body : Node}
      (hdecl' : env.program.function? sp.func = some decl') (hbody : decl'.body = some body) :
      sp.Declared (fun _ => True) env.program := by
    cases hdecl.symm.trans hdecl'
    exact ⟨⟨decl, argCount, at', hdecl, by rw [hbody]; rfl, hres⟩, fun _ _ => trivial⟩
  refine .of_leads (specialize_leads (fun _ _ _ => trivial) ?_ ?_ ?_)
  · intro decl' params ret hdecl' hbody hparams hret
    refine .intro (fun id s hm => ?_) fun _ _ _ => trivial
    obtain ⟨x, hx, hwx, hcalls⟩ := declareExternal_unit (w := w) id s hm
    refine ⟨x, hx, hwx, fun ha => ?_⟩
    obtain ⟨f, hf, hs⟩ := hcalls ha
    exact ⟨f, hf, params, ret, hparams, StaticType.lowered_span hret _, hs⟩
  · intro decl' body params id hdecl' hbody hparams hid
    have hsp := declared hdecl' hbody
    have hlater : w.state.unit.Later (w.state.recalled sp id).unit := ⟨.refl _, List.suffix_cons _ _⟩
    refine ⟨⟨w.state.recalled sp id, w.recorded.recalled hsp hid, fun ha => ?_⟩, rfl,
      ⟨rfl, hlater⟩, fun ha => ?_⟩
    · have ht := w.typed (hlater.agrees ha)
      exact ⟨ht.wellTyped, ht.symbols, ht.header, ht.descriptors⟩
    · -- the definition belongs to an earlier request, which was for the same specialization
      obtain ⟨r, hr, hfresh, rfl, hsym⟩ := w.recorded.entered hid
      obtain ⟨f, hf, hshapes⟩ := w.recorded.defined hr hfresh
      obtain ⟨hfunc, htypes⟩ := ha r (List.mem_cons_of_mem _ hr) _ List.mem_cons_self hsym
      have heq := (w.recorded.declared hr).eq_of_symbol_eq hsp hsym hfunc htypes
      rw [heq] at hshapes
      exact ⟨f, hf, hshapes⟩
  · intro decl' body params ret hdecl' hbody hparams hret _
    have hsp := declared hdecl' hbody
    obtain ⟨x, hx, hfn, hlater⟩ := w.exists_started hsp hparams hret
    obtain ⟨hthis, hsupplied⟩ := supplied_of_loweredParams hparams hfn
    have hbodies := hg sp.func decl' hdecl'
    have hrun : Spec env x (generateBody generate sp body span) fun _ _ => True := by
      refine generateBody_typed (fun q hq d hd => ?_) (hbodies.2 body hbody) hthis hsupplied
      obtain ⟨param, hparam, hdefault⟩ := hres.exists_default hq hd
      exact (hg sp.func decl hdecl).1 param hparam d hdefault
    refine .intro (fun _ s hm => ?_) fun _ _ _ => trivial
    obtain ⟨y, rfl, hxy, -⟩ := hrun _ s (by rw [TypedWorld.state_eq, hx]; exact hm)
    refine ⟨⟨⟨y.state.unit, w.state.frame⟩, y.recorded, y.typed⟩, rfl,
      ⟨rfl, hlater.trans (TypedWorld.later hxy)⟩, fun _ => ?_⟩
    have hnew : x.module.function? w.state.unit.module.nextFunction = some x.fn := by
      have hfunction : x.frame.function = w.state.unit.module.nextFunction :=
        congrArg (·.frame.function) hx
      rw [← hfunction]
      exact x.current
    obtain ⟨f, hf, hp⟩ := (TypedWorld.later hxy).module.function hnew
    refine ⟨f, hf, params, ret, hparams, StaticType.lowered_span hret _, ?_⟩
    rw [hp.signature, hfn]
    rfl

/-! ## Arguments -/

section Program

variable {w : TypedWorld env.program} {args : List Node}

theorem arrayOfOperands_typed {l : ArrayLayout} {elements : List ValueId} :
    Spec env w (arrayOfOperands l elements span) fun v x => x.Carries v .ptr :=
  .bind emitI32_typed fun _ _ _ hn =>
    callSupport_typed (f := .arrayNew l.storage) (fun h => by cases h) (.cons hn .nil)

/-- The operands that a call passes have the types of the parameters supplied. -/
def Fills (w : TypedWorld p) (vs : List ValueId) (params : List ResolvedParam) : Prop :=
  List.Forall₂ (fun v (q : ResolvedParam) => w.Holds v q.type) vs (params.filter (·.supplied))

theorem Fills.later {w x : TypedWorld p} {vs : List ValueId} {params : List ResolvedParam}
    (h : Fills w vs params) (hx : w ≤ x) : Fills x vs params :=
  h.imp fun _ _ => TypedWorld.holds hx

theorem Fills.carries {w : TypedWorld p} {vs : List ValueId} {params : List ResolvedParam}
    {types : List Ty} (h : Fills w vs params)
    (ht : List.Forall₂ (fun (q : ResolvedParam) t => q.type.lowered q.span = .ok t)
      (params.filter (·.supplied)) types) : List.Forall₂ w.Carries vs types := by
  unfold Fills at h
  generalize params.filter (·.supplied) = qs at h ht
  induction h generalizing types with
  | nil =>
    cases ht
    exact .nil
  | cons hv _ ih =>
    cases ht with
    | cons ht hrest => exact .cons (hv.carries (StaticType.lowered_span ht _)) (ih hrest)

theorem argumentOperands_typed (h : ∀ a ∈ args, Types env generate a) {params : List ResolvedParam}
    (hv : ∀ q ∈ params, q.variadic = true → q.supplied = true) {index : Nat} :
    Spec env w (argumentOperands generate args span index params) fun vs x =>
      Fills x vs params := by
  induction params generalizing index w with
  | nil => exact .pure .nil
  | cons q rest ih =>
    have ih {w : TypedWorld env.program} : Spec env w
        (argumentOperands generate args span (index + 1) rest) fun vs x => Fills x vs rest :=
      ih fun r hr => hv r (List.mem_cons_of_mem q hr)
    -- a supplied parameter takes one operand
    have one (hs : q.supplied = true) {m : Gen ValueId}
        (hm : Spec env w m fun v x => x.Holds v q.type) : Spec env w (do
          let here ← m
          return [here] ++ (← argumentOperands generate args span (index + 1) rest)) fun vs x =>
            Fills x vs (q :: rest) := by
      refine .bind hm fun a x _ ha => .bind ih fun vs y hy hvs => .pure ?_
      unfold Fills
      rw [List.filter_cons_of_pos hs]
      exact .cons (TypedWorld.holds hy ha) hvs
    unfold argumentOperands
    split
    · next hvariadic =>
      have packed {t : StaticType} (ht : q.type = .array t) : Spec env w (do
          let l ← ofExcept (ArrayLayout.of q.type q.span)
          let elements ← (args.drop index).mapM fun a => generateOperand generate a l.element
          arrayOfOperands l elements span) fun v x => x.Holds v q.type := by
        refine .bind (.ofExcept (Q := fun _ _ => True) fun _ _ => trivial) fun l x _ _ => ?_
        refine .bind (operands_typed fun a ha => h a (List.mem_of_mem_drop ha)) fun es y _ _ => ?_
        exact arrayOfOperands_typed.mono fun _ _ _ hr => hr.holds (by rw [ht]; rfl)
      split
      · next t ht =>
        have hone := one (hv q List.mem_cons_self hvariadic) (packed ht)
        simp only [bind_assoc] at hone
        exact hone
      · exact .bind (.internal (Q := fun _ _ => False)) fun _ _ _ hf => hf.elim
    · split
      · next hs =>
        cases ha : args[index]? with
        | none => exact .bind (.throw (Q := fun _ _ => False)) fun _ _ _ hf => hf.elim
        | some a =>
          have hone := one hs (generateOperand_typed (h a (List.mem_of_getElem? ha)))
          simp only [pure_bind]
          exact hone
      · next hs =>
        simp only [pure_bind]
        refine .bind ih fun vs y _ hvs => .pure ?_
        unfold Fills
        rw [List.filter_cons_of_neg hs]
        exact hvs

theorem emitCall_yields {signature : Signature} {receiver : Option ValueId}
    (hg : Sound env generate)
    (hi : ∀ decl, env.program.function? signature.func = some decl →
      decl.isInstance = receiver.isSome)
    (hr : ∀ a, receiver = some a → w.Carries a .ptr) (h : ∀ a ∈ args, Types env generate a) :
    Spec env w (emitCall generate signature receiver args span) fun v x => x.Yields v := by
  refine .bind (Spec.mapM (P := fun _ _ => True) (fun _ _ _ _ => id) ?_) fun typeArgs x hx _ => ?_
  · intro t _ y _
    exact .read rfl (.pure trivial)
  refine .bind functionDecl_typed fun decl y hy hdecl => .read rfl ?_
  refine .bind (.ofExcept (Q := fun sp _ => Specialization.Resolves env.program signature.func decl
    typeArgs args.length span sp) fun sp hsp => Specialization.resolve_ok hsp) fun sp z hz hsp => ?_
  obtain ⟨params, ret, hparams, hret⟩ := hsp.exists_lowered .dummy
  refine .bind (argumentOperands_typed h fun q hq hvariadic => ?_) fun operands x₁ h₁ hops => ?_
  · obtain ⟨param, -, i, hi⟩ := hsp.exists_param hq
    obtain ⟨-, -, hv, -, hs, -⟩ := Specialization.resolveParam_ok hi
    rw [hs, ← hv, hvariadic]
    rfl
  have hfunc := hsp.func_eq
  refine .bind (specialize_unit hg (by rw [hfunc]; exact hdecl)
    (by rw [hfunc, hsp.typeArgs_eq]; exact hsp)).of_unit fun callee x₂ h₂ hcallee => ?_
  have hcalls : x₂.Calls callee params ret false := fun ha => by
    obtain ⟨f, hf, params', ret', hparams', hret', hs⟩ := hcallee ha
    cases hparams.symm.trans hparams'
    cases hret.symm.trans hret'
    exact ⟨f, hf, hs⟩
  obtain ⟨rest, rfl, hrest⟩ := Specialization.loweredParams_ok hparams
  have hinst := hsp.isInstance_eq.trans (hi decl hdecl)
  have hargs : List.Forall₂ x₂.Carries (receiver.toList ++ operands)
      ((if sp.isInstance then [.ptr] else []) ++ rest) := by
    have hops := (hops.later h₂).carries hrest
    rw [hinst]
    cases receiver with
    | none => exact hops
    | some a =>
      exact .cons (TypedWorld.carries (hx.trans (hy.trans (hz.trans (h₁.trans h₂)))) (hr a rfl)) hops
  refine .bind (callFunction_typed hcalls hargs) fun result x₃ _ hres => ?_
  exact (valueOf_typed (hres.holds hret)).yields

end Program

end Gen

end TypedLowering
