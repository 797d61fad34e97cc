import TypedLowering.Proofs.Order.Tandem

/-!
Bodies that have been generated once can be generated again on the way to the same definitions, whatever
part of them is there already. The second run needs more depth than the first one: where the first one
found a definition, the second one may have to descend into its body. But each body it descends into is
one of finitely many that are on record.
-/
namespace TypedLowering
set_option autoImplicit false
open Ssa

namespace Gen

variable {α β : Type} {env env' : Env} {T : StaticType → Prop} {u : UnitState} {r : Nat}
  {w x : Tandem env.program env'.program T u r}

namespace Drives

variable {V : Tandem env.program env'.program T u r → α → α → Prop} {m m' : Gen α}

/-! ## Calls -/

/-- Calls of functions with the same name. -/
theorem call {i j : FunctionId} (h : (Tandem.outlook env.program env'.program T u r).declared w i j)
    (t : Ty) (args : List ValueId) (attrs : Attributes) :
    Drives env env' ValueId w (fun _ => Eq) (Gen.emit (.call i t args attrs))
      (Gen.emit (.call j t args attrs)) := by
  have later {x : Tandem env.program env'.program T u r} (hx : w ≤ x) :=
    (Tandem.outlook env.program env'.program T u r).declared_mono hx h
  refine emit (fun x hx => x.driver.exists_called (later hx).1 args attrs t) (fun x hx hl => ?_)
    fun x hx hl => ?_
  · obtain ⟨_, f', -, hf', -⟩ := (later hx).2 hl
    obtain ⟨y, hy⟩ := x.exists_follower hl
    rw [← hy] at hf' ⊢
    obtain ⟨z, hz, -⟩ := y.exists_called ⟨f', hf'⟩ args attrs t
    have hr := z.regular.orderly
    rwa [show z.state = _ from hz] at hr
  · obtain ⟨f, f', hf, hf', hname, -⟩ := (later hx).2 hl
    exact ⟨.call hf hf' hname args attrs, rfl⟩

/-- Computations that run in the same way here. -/
theorem congr {n n' : Gen α} (hm : m env w.driver.state = n env w.driver.state)
    (hm' : w.Alive → m' env' w.follower = n' env' w.follower) (h : Drives env env' α w V n n') :
    Drives env env' α w V m m' := by
  unfold Drives Leads at *
  rw [hm]
  split at h
  · obtain ⟨x, hx, hs, b, hV, hb⟩ := h
    exact ⟨x, hx, hs, b, hV, fun hl => (hm' (hl.earlier hx)).trans (hb hl)⟩
  · exact h

theorem callFunction {i j : FunctionId}
    (h : (Tandem.outlook env.program env'.program T u r).declared w i j) (args : List ValueId)
    (attrs : Attributes) :
    Drives env env' ValueId w (fun _ => Eq) (Gen.callFunction i args attrs)
      (Gen.callFunction j args attrs) := by
  have run (env : Env) (k : FunctionId) (s : GenState) : Gen.callFunction k args attrs env s =
      Gen.emit (.call k (s.unit.module.functionRet k) args attrs) env s := rfl
  refine congr (run _ i _) (fun hl => ?_) (call h (w.driver.state.unit.module.functionRet i) args attrs)
  obtain ⟨f, f', hf, hf', -, hret⟩ := h.2 hl
  rw [run, Module.functionRet_of_function? hf, Module.functionRet_of_function? hf', hret]

/-- Requests that are answered by functions of the same name. -/
theorem of_obtains (hu : u.module.TellsApart) {m m' : Gen FunctionId} (name : String)
    (h : Leads env w.driver.state m
      (fun i t => Obtains env.program w.driver.state name i t ∧ (t.unit.Precedes u → ∃ j t',
        m' env' w.follower = .ok j t' ∧ Obtains env'.program w.follower name j t' ∧
          u.Within r t'.unit))
      fun _ t => w.driver.state.unit.Precedes t.unit) :
    Drives env env' FunctionId w (Tandem.outlook env.program env'.program T u r).declared m m' := by
  refine Leads.mono h ?_ fun _ _ he => he
  rintro i t ⟨hi, hj⟩
  obtain ⟨y, rfl, hwy, hyi⟩ := hi.world (w := w.driver) trivial
  have hfollow (hl : y.state.unit.Precedes u) : ∃ t', w.Keeping y.state t' ∧
      ∃ j, m' env' w.follower = .ok j t' ∧ y.state.SameFunction t' i j := by
    obtain ⟨j, t', hrun, hj, hwithin⟩ := hj hl
    obtain ⟨-, ⟨f, f', hf, hf', ha⟩, -⟩ := w.together (hwy.2.trans hl)
    refine ⟨t', ⟨hj.frame, hj.precedes, hj.regular, ⟨f, f', ?_, ?_, ?_⟩, hwithin⟩, j, hrun, ?_⟩
    · rw [show y.state.frame = _ from hi.frame]
      exact hi.kept.functions.kept not_false hf
    · rw [hj.frame]
      exact hj.kept.functions.kept not_false hf'
    · exact ha.mono hwy.2.embeds hj.precedes.embeds
    · obtain ⟨k, hk, hname⟩ := hi.function
      obtain ⟨k', hk', hname'⟩ := hj.function
      obtain ⟨g, hg, hh, -⟩ := hl.embeds.function hk
      have hsame : k'.name = k.name := hname'.trans hname.symm
      have hheading := hwithin.heading_eq hu hg hk' (hsame.trans (Function.name_of_heading hh).symm)
      exact ⟨k, k', hk, hk', hsame, Function.ret_of_heading (hheading.symm.trans hh)⟩
  obtain ⟨x, hwx, rfl, hx⟩ := Tandem.exists_step hwy hi.frame hfollow
  by_cases hl : x.Alive
  · obtain ⟨j, hrun, hsame⟩ := hx hl
    exact ⟨x, hwx, rfl, j, ⟨hyi, fun _ => hsame⟩, fun _ => hrun⟩
  · exact ⟨x, hwx, rfl, .absent, ⟨hyi, fun h => (hl h).elim⟩, fun h => (hl h).elim⟩

theorem declareExternal (hu : u.module.TellsApart) {name : String}
    (hn : Mangling.isReserved name = false) (params : List Ty) (ret : Ty) (attrs : Attributes)
    (variadic : Bool) (span : Span) :
    Drives env env' FunctionId w (Tandem.outlook env.program env'.program T u r).declared
      (Gen.declareExternal name params ret attrs variadic span)
      (Gen.declareExternal name params ret attrs variadic span) := by
  refine of_obtains hu name ((declareExternal_regular w.driver.regular hn params ret attrs
    variadic span).mono (fun i t hd => ⟨hd.obtains, fun hl => ?_⟩) ?_)
  · obtain ⟨hr, -, hw⟩ := w.together (hd.precedes.trans hl)
    obtain ⟨f, hf, hh⟩ := hd.function
    obtain ⟨k, hk, hh', -⟩ := hl.embeds.function hf
    have hfollow := (declareExternal_within hu hr hw hk (hh'.trans hh) attrs span).and
      (declareExternal_regular hr hn params ret attrs variadic span)
    cases hj : Gen.declareExternal name params ret attrs variadic span env' w.follower with
    | ok j t' => exact ⟨j, t', rfl, (hfollow.ok hj).2.obtains, (hfollow.ok hj).1⟩
    | error e t' => exact (hfollow.error hj).1.elim
  · rintro _ _ rfl
    exact .refl _

theorem raise : Drives env env' Unit w (fun _ => Eq)
    (modifyUnit fun u => { u with gcRequired := true })
    (modifyUnit fun u => { u with gcRequired := true }) := by
  obtain ⟨y, hy, hwy⟩ := w.driver.exists_raised
  have hy : y.state = _ := hy
  let t : GenState := { w.follower with unit := { w.follower.unit with gcRequired := true } }
  have hreply (hl : y.state.unit.Precedes u) : ∃ t', w.Keeping y.state t' ∧ t' = t := by
    obtain ⟨-, hbody, hw⟩ := w.together (hwy.2.trans hl)
    refine ⟨t, ⟨rfl, ⟨.refl _, id, fun _ => rfl, [], rfl⟩, ?_, ?_, ?_⟩, rfl⟩
    · obtain ⟨z, hz⟩ := w.exists_follower (hwy.2.trans hl)
      obtain ⟨z', hz', -⟩ := z.exists_raised
      have hr := z'.regular
      rwa [show z'.state = _ from hz', hz] at hr
    · rw [hy]
      exact hbody
    · exact ⟨hw.heading, fun _ => hl.raised (by rw [hy]), hw.lacks⟩
  obtain ⟨x, hwx, hx, hfollow⟩ := Tandem.exists_step hwy (by rw [hy]) hreply
  refine .of_ok rfl ⟨x, hwx, (congrArg RegularWorld.state hx).trans hy, (), rfl, fun hl => ?_⟩
  rw [hfollow hl]
  rfl

theorem callSupport (hu : u.module.TellsApart) (f : SupportFunction) (args : List ValueId)
    (span : Span) : Drives env env' ValueId w (fun _ => Eq) (Gen.callSupport f args span)
      (Gen.callSupport f args span) := by
  refine Drives.bind (declareExternal hu f.isReserved_symbol _ _ _ _ _) fun x i j _ hij => ?_
  cases f.allocates with
  | true =>
    refine Drives.bind raise fun y _ _ hxy _ => ?_
    exact call ((Tandem.outlook _ _ T u r).declared_mono hxy hij) _ _ _
  | false => exact call hij _ _ _

/-! ## Layouts -/

/-- A step that leaves functions alone and comes to the same in all regular units. -/
theorem quietly {m : Gen α} {V : Tandem env.program env'.program T u r → α → α → Prop}
    {Q : α → Module → Prop} {F : Prop}
    (hm : ∀ {s : GenState}, s.unit.Regular env.program → Leads env s m
      (fun a t => s.Quiet env.program t ∧ Q a t.unit.module) fun _ t => s.Quiet env.program t ∧ F)
    (hm' : ∀ {s : GenState}, s.unit.Regular env'.program → Leads env' s m
      (fun a t => s.Quiet env'.program t ∧ Q a t.unit.module) fun _ t => s.Quiet env'.program t ∧ F)
    (hQ : ∀ {a n}, Q a n → ¬ F)
    (hV : ∀ {x a b n n'}, Q a n → Q b n' →
      (x.Alive → Q a x.driver.state.unit.module ∧ Q b x.follower.unit.module) → V x a b) :
    Drives env env' α w V m m := by
  have hdriver := hm w.driver.regular
  have hfollower (hl : w.Alive) := hm' (w.together hl).regular
  cases hrun : m env w.driver.state with
  | error e t => exact .of_error hrun (UnitState.Level.of_quiet (hdriver.error hrun).1).precedes
  | ok a t =>
    obtain ⟨hq, ha⟩ := hdriver.ok hrun
    obtain ⟨y, hy, hwy⟩ := (regular_trackable (.passing T) env).quiet (w := w.driver) hq
    have hy : y.state = t := hy
    subst hy
    -- a run that need not follow may come to anything
    have hreply : ∃ b n t', Q b n ∧ (w.Alive → m env' w.follower = .ok b t' ∧
        w.follower.Quiet env'.program t' ∧ Q b t'.unit.module) := by
      by_cases hl : w.Alive
      · cases hrun' : m env' w.follower with
        | ok b t' =>
          obtain ⟨hq', hb⟩ := (hfollower hl).ok hrun'
          exact ⟨b, _, t', hb, fun _ => ⟨rfl, hq', hb⟩⟩
        | error e t' => exact (hQ ha ((hfollower hl).error hrun').2).elim
      · exact ⟨a, _, w.follower, ha, fun h => (hl h).elim⟩
    obtain ⟨b, n, t', hb, hreply⟩ := hreply
    refine level hrun (fun hl => (hreply hl).1) hwy hq.toAlike.frame (fun hl => ?_)
      fun x hwx hx ht' => ?_
    · obtain ⟨-, hq', -⟩ := hreply hl
      obtain ⟨hr, ⟨f, f', hf, hf', hff⟩, -⟩ := w.together hl
      refine ⟨hq'.toAlike.frame, hr.of_quiet hq', .of_quiet hq', f, f', ?_, ?_,
        hff.mono hwy.2.embeds (UnitState.Level.of_quiet hq').embeds⟩
      · rw [hq.toAlike.frame]
        exact (hq.toAlike.function? _).trans hf
      · rw [hq'.toAlike.frame]
        exact (hq'.toAlike.function? _).trans hf'
    · refine hV ha hb fun hl => ⟨?_, ?_⟩
      · rw [hx]
        exact ha
      · rw [ht' hl]
        exact (hreply (hl.earlier hwx)).2.2

theorem arrayHeader : Drives env env' StructId w (Tandem.outlook env.program env'.program T u r).struct
    Gen.arrayHeader Gen.arrayHeader := by
  refine quietly (Q := fun i n => n.struct? i = some headerStruct) (F := False)
    (fun hr => (arrayHeader_regular hr).mono (fun _ _ h => h) fun _ _ h => h.elim)
    (fun hr => (arrayHeader_regular hr).mono (fun _ _ h => h) fun _ _ h => h.elim)
    (fun _ h => h) fun _ _ hx hl => ?_
  exact ⟨_, hx hl⟩

theorem descriptor (hmembers : env'.program.membersOf = env.program.membersOf) (cls : ClassId) :
    Drives env env' ClassDescriptor w
      (fun x d d' => d.Alike ((Tandem.outlook env.program env'.program T u r).struct x) d')
      (Gen.descriptor cls) (Gen.descriptor cls) := by
  have hdescribes {d : ClassDescriptor} {n : Module} (h : d.Describes env'.program n cls) :
      d.Describes env.program n cls := by
    unfold ClassDescriptor.Describes at h ⊢
    rwa [hmembers] at h
  refine quietly (Q := fun d n => d.Describes env.program n cls)
    (F := ∃ e, env.program.membersOf cls = .error e) ?_ ?_ ?_ ?_
  · exact fun hr => (descriptor_regular hr cls).mono (fun _ _ h => h) fun e _ h => ⟨h.1, e, h.2⟩
  · refine fun hr => (descriptor_regular hr cls).mono (fun _ _ h => ⟨h.1, hdescribes h.2⟩)
      fun e _ h => ⟨h.1, e, ?_⟩
    rw [← hmembers]
    exact h.2
  · rintro d n ⟨decl, fields, methods, hok, -⟩ ⟨e, he⟩
    cases hok.symm.trans he
  · intro x d d' n n' hd hd' hx
    exact ⟨d'.layout, fun hl => ((hx hl).1.alike (hx hl).2).2, (hd.alike hd').1⟩

theorem literalAddress (t : Ty) (data : List Constant) :
    Drives env env' ValueId w (fun _ => Eq) (do Gen.emit (.globalAddr (← addLiteralGlobal t data)))
      (do Gen.emit (.globalAddr (← addLiteralGlobal t data))) := by
  have hadd : Drives env env' GlobalId w (fun x i j => x.Alive → ∃ g k,
      x.driver.state.unit.module.global? i = some g ∧ x.follower.unit.module.global? j = some k ∧
      k.elemType = g.elemType ∧ k.data = g.data) (addLiteralGlobal t data)
      (addLiteralGlobal t data) := by
    have hnew {env : Env} (s : GenState) : Leads env s (addLiteralGlobal t data)
        (fun i t' => s.Quiet env.program t' ∧
          ∃ g, t'.unit.module.global? i = some g ∧ g.elemType = t ∧ g.data = data)
        fun _ t' => s.Quiet env.program t' ∧ False :=
      .of_ok rfl ⟨.literal t data, ⟨_, t, data⟩, Array.getElem?_push_size, rfl, rfl⟩
    refine quietly (Q := fun i n => ∃ g, n.global? i = some g ∧ g.elemType = t ∧ g.data = data)
      (F := False) (fun {s} _ => hnew s) (fun {s} _ => hnew s) (fun _ h => h) fun _ _ hx hl => ?_
    obtain ⟨⟨g, hg, ht, hd⟩, k, hk, ht', hd'⟩ := hx hl
    exact ⟨g, k, hg, hk, ht'.trans ht.symm, hd'.trans hd.symm⟩
  refine Drives.bind hadd fun x i j _ hij => emit_plain rfl rfl fun y hxy hl => ?_
  obtain ⟨g, k, hg, hk, ht, hd⟩ := hij (hl.earlier hxy)
  exact ⟨.globalAddr (hxy.1.2.embeds.global hg) ((hxy.2 hl).2.embeds.global hk) ht hd, rfl⟩

/-- Every step of the first run is followed by the second one. -/
theorem steps (hu : u.module.TellsApart) (hs : env.Similar env') (hconfig : env'.config = env.config) :
    Steps (Tandem.outlook env.program env'.program T u r) env env' (fun t => t) (Drives env env') where
  similar := hs
  hints := congrArg Config.intrinsicHints hconfig.symm
  pure := .pure
  bind := .bind
  throw := fun _ _ => .throw
  reads := look rfl (fun _ => rfl) ⟨rfl, rfl⟩
  frame := fun {w} => look rfl (fun _ => rfl) w.framed
  modifyFrame := fun {w g g'} hg hkeep hkeep' => by
    obtain ⟨y, hy, hwy⟩ := (regular_trackable (.passing T) env).modifyFrame (w := w.driver) hkeep
    obtain ⟨x, hwx, hx, hfollow⟩ := Tandem.exists_framed g g' hwy hy (hkeep _).1 (hkeep' _).1
      (hg _ _ w.framed)
    refine .of_ok rfl ⟨x, hwx, (congrArg RegularWorld.state hx).trans hy, (), rfl, fun _ => ?_⟩
    rw [hfollow]
    rfl
  isTerminated := fun {w} => by
    refine look (a := w.driver.state.query false fun f => f.isTerminated w.driver.state.frame.block)
      rfl (fun hl => ?_) rfl
    have hsame : w.follower.query false (fun f => f.isTerminated w.follower.frame.block) =
        w.driver.state.query false fun f => f.isTerminated w.driver.state.frame.block :=
      w.query_eq hl fun ha => by rw [w.framed.block, ha.isTerminated_eq]
    rw [← hsame]
    rfl
  emit := fun hd => hd.eq ▸ emit_local hd.isLocal.2
  emitBinary := fun op _ _ _ _ hl hr => by
    rw [show _ = _ from hl, show _ = _ from hr]
    exact emitBinary op _ _
  emitSelect := fun hc ha hb => by
    rw [show _ = _ from hc, show _ = _ from ha, show _ = _ from hb]
    exact emitSelect _ _ _
  fieldPtr := fun index hbase hij => by
    rw [show _ = _ from hbase]
    exact fieldPtr _ index hij
  emitSlot := emitSlot
  terminate := fun ht => ht.eq ▸ terminate _
  appendBlock := appendBlock
  positionAt := fun {w b} hb => by
    obtain ⟨y, hy, hwy⟩ := (regular_trackable (.passing T) env).moved (w := w.driver) hb
    obtain ⟨x, hwx, hx, hfollow⟩ := Tandem.exists_framed (fun f => { f with block := b })
      (fun f => { f with block := b }) hwy hy rfl rfl { w.framed with block := rfl }
    refine .of_ok rfl ⟨x, hwx, (congrArg RegularWorld.state hx).trans hy, (), rfl, fun _ => ?_⟩
    rw [hfollow]
    rfl
  param := fun _ => rfl
  arrayHeader := arrayHeader
  descriptor := fun cls => by
    refine descriptor ?_ cls
    obtain ⟨-, funcs, hp⟩ := hs
    rw [hp]
    rfl
  callSupport := fun f args args' span _ ha => by
    rw [eq_of_forall₂ ha]
    exact callSupport hu f args span
  declareMath := fun {w symbol} arity attrs attrs' span hsym ha => by
    rw [show _ = _ from ha]
    exact declareExternal hu (MathMember.isReserved_symbols symbol hsym) _ _ _ _ _
  callFunction := fun hij ha hattrs => by
    rw [eq_of_forall₂ ha, show _ = _ from hattrs]
    exact callFunction hij _ _

end Drives

theorem generateBody_span {generate : Generate} {sp : Specialization} {body : Node} {span : Span}
    {s t : GenState} {a : Unit} (h : generateBody generate sp body span env s = .ok a t)
    (span' : Span) : generateBody generate sp body span' env s = .ok a t := by
  unfold generateBody at h ⊢
  cases hi : sp.isInstance with
  | false =>
    rw [hi] at h
    exact h
  | true =>
    rw [hi] at h
    cases ho : sp.owner with
    | none =>
      rw [ho] at h
      cases h
    | some owner =>
      rw [ho] at h
      exact h

end Gen

/-! ## Programs -/

/-- Specializations with the same symbol are the same, as far as they are at types with `T`. -/
def Program.DistinctSymbols (T : StaticType → Prop) (p : Program) : Prop :=
  ∀ sp sp' : Specialization, sp.Declared T p → sp'.Declared T p → sp.symbol p = sp'.symbol p → sp = sp'

namespace Env.Similar

variable {env env' : Env} {Called : FuncId → Prop} {T : StaticType → Prop} (h : env.Similar env')

include h

theorem callsWithin (hp : env.program.CallsWithin Called T) : env'.program.CallsWithin Called T := by
  obtain ⟨-, funcs, hfuncs⟩ := h
  rw [hfuncs]
  exact ⟨⟨hp.everywhere.body, hp.everywhere.default⟩, hp.substitute, hp.spares⟩

theorem requestable {sp : Specialization} {body : Node} {params : List Ty} {ret : Ty}
    (hsp : sp.Requestable Called T env.program body params ret) :
    sp.Requestable Called T env'.program body params ret := by
  obtain ⟨-, funcs, hfuncs⟩ := h
  rw [hfuncs]
  obtain ⟨⟨⟨decl, argCount, span, hdecl, hbody, hres⟩, htypes⟩, hc, hf, hparams, hret⟩ := hsp
  exact ⟨⟨⟨decl, argCount, span, hdecl, hbody, { hres with params := hres.params }⟩, htypes⟩, hc, hf,
    hparams, hret⟩

end Env.Similar

/-! ## Replay -/

/-- What it takes to generate the definitions of a unit once more: all of them are on record, and a
symbol tells what specialization it stands for. The module may have other functions. -/
structure Replay (env env' : Env) (T : StaticType → Prop) (depth : Nat) (u : UnitState) : Prop where
  similar : env.Similar env'
  config : env'.config = env.config
  calls : env.program.CallsWithin (fun _ => True) T
  distinct : env.program.DistinctSymbols T
  names : u.module.TellsApart
  records : ∀ {symbol id}, u.specializations.get? symbol = some id → u.Records env T depth symbol

namespace Replay

open Gen

variable {env env' : Env} {T : StaticType → Prop} {depth d d' r : Nat} {u : UnitState}

/-- Trees that are followed, generated at a depth and at a greater one. -/
def Nodes (env env' : Env) (T : StaticType → Prop) (u : UnitState) (r d d' : Nat) : Prop :=
  ∀ n : Node, n.CallsWithin (fun _ => True) T →
    Coupling.Couples (Tandem.outlook env.program env'.program T u r) (fun t => t) (Gen.generate d)
      (Gen.generate d') (Drives env env') n

variable {sp : Specialization} {body : Node} {params : List Ty} {ret : Ty} {s' : GenState}

/-- A body on record is followed from any state that looks from inside the function like the one in
which it was entered. -/
theorem follow_from (h : Replay env env' T depth u) (hn : Nodes env env' T u r depth d')
    {r₀ : Recording env T depth} (hin : r₀.In u) {v : GenState} (hr : v.unit.Regular env'.program)
    (hframe : v.frame = { r₀.start.frame with function := v.frame.function })
    (hbody : r₀.start.SameBody v) (hw : u.Within r v.unit) :
    ∃ t, generateBody (Gen.generate d') r₀.specialization r₀.body r₀.span env' v = .ok () t ∧
      r₀.after.Together env'.program u r t := by
  let w : Tandem env.program env'.program T u r := {
    driver := .entered r₀.regular r₀.specialization r₀.params r₀.ret r₀.fresh trivial
      r₀.requestable.declared
    follower := v
    framed := by
      rw [hframe]
      exact ⟨rfl, .nil, rfl, rfl, fun _ => rfl, .none⟩
    together := fun _ => ⟨hr, hbody, hw⟩ }
  have hsteps := Drives.steps (T := T) (r := r) h.names h.similar h.config
  have hc : Coupling (Tandem.outlook env.program env'.program T u r) env env' (fun t => t)
      (fun _ => False) (fun _ => True) (Gen.generate depth) (Gen.generate d') (Drives env env') :=
    hsteps.coupling h.config Drives.literalAddress (fun hc => hc.elim) fun _ _ _ hc => hc.elim
  have hgenerates := hc.generateBody (w := w) (s := r₀.specialization) rfl rfl rfl
    (List.map_id'' ResolvedParam.retyped_self _).symm (hn r₀.body (r₀.requestable.body_within h.calls))
    (fun q hq d hd => hn d (r₀.requestable.default_within h.calls q hq d hd)) r₀.span
  rw [Node.retyped_self] at hgenerates
  obtain ⟨x, hwx, hx, _, -, hx'⟩ := Leads.ok hgenerates r₀.run
  have hl : x.Alive := by
    unfold Tandem.Alive
    rw [hx]
    exact hin.precedes
  exact ⟨x.follower, hx' hl, hx ▸ x.together hl⟩

/-- A body on record is followed in a unit that lacks the definition. -/
theorem follow (h : Replay env env' T depth u) (hn : Nodes env env' T u r depth d')
    {r₀ : Recording env T depth} (hin : r₀.In u) (hr : s'.unit.Regular env'.program)
    (hw : u.Within (r + 1) s'.unit)
    (hnone : s'.unit.specializations.get? r₀.symbol = none) :
    ∃ t, generateBody (Gen.generate d') r₀.specialization r₀.body r₀.span env'
        (s'.started r₀.specialization r₀.symbol r₀.params r₀.ret) = .ok () t ∧
      r₀.after.Together env'.program u r t := by
  refine h.follow_from hn hin ?_ rfl ⟨_, _, r₀.before.unit.module.function?_addFunction_next _,
    s'.unit.module.function?_addFunction_next _, (Function.Alike.shell _ _ _ _ _ _).addBlock _⟩ ?_
  · have hsymbol : r₀.symbol = r₀.specialization.symbol env'.program :=
      (h.similar.symbol_eq r₀.specialization).symm
    rw [hsymbol] at hnone ⊢
    exact hr.started r₀.specialization r₀.params r₀.ret hnone
  · obtain ⟨f, hf, hh⟩ := hin.heading h.calls
    exact hw.started hin.table hf hh hnone

/-- A request for a definition of the unit is answered. -/
theorem answer (h : Replay env env' T depth u)
    (hn : ∀ r', r = r' + 1 → Nodes env env' T u r' depth d')
    (hsp : sp.Requestable (fun _ => True) T env.program body params ret) {i : FunctionId}
    (hdefined : u.specializations.get? (sp.symbol env.program) = some i)
    (hr : s'.unit.Regular env'.program) (hw : u.Within r s'.unit) (span : Span) :
    ∃ j t', requestDefinition (Gen.generate d') sp body params ret span env' s' = .ok j t' ∧
      Obtains env'.program s' (sp.symbol env.program) j t' ∧ u.Within r t'.unit := by
  have hsymbol := h.similar.symbol_eq sp
  have hruns : ∃ j t', requestDefinition (Gen.generate d') sp body params ret span env' s' = .ok j t' ∧
      u.Within r t'.unit := by
    rw [requestDefinition_run, hsymbol]
    cases htable : s'.unit.specializations.get? (sp.symbol env.program) with
    | some j => exact ⟨j, _, rfl, hw.heading, hw.collector, hw.lacks⟩
    | none =>
      have hpos : 0 < s'.unit.lacks u.defined := UnitState.lacks_pos (Dict.mem_keys hdefined) htable
      obtain ⟨r', rfl⟩ := Nat.exists_eq_add_one.mpr (Nat.lt_of_lt_of_le hpos hw.lacks)
      obtain ⟨r₀, hsame, hin⟩ := h.records hdefined
      cases h.distinct _ _ r₀.requestable.declared hsp.declared hsame
      obtain ⟨hbody, hparams, hret⟩ := r₀.requestable.unique hsp
      subst hbody hparams hret
      obtain ⟨t, hrun, -, -, hwithin⟩ := h.follow (hn r' rfl) hin hr hw htable
      have hspan : generateBody (Gen.generate d') r₀.specialization r₀.body span env'
          (s'.started r₀.specialization (r₀.specialization.symbol env.program) r₀.params r₀.ret) =
            .ok () t := generateBody_span hrun span
      refine ⟨s'.unit.module.nextFunction, ⟨t.unit, s'.frame⟩, ?_, hwithin.mono (Nat.le_succ r')⟩
      rw [hspan]
  obtain ⟨j, t', hrun, hwithin⟩ := hruns
  have hcalls := h.similar.callsWithin h.calls
  have hrequestable := h.similar.requestable hsp
  have hregular := requestDefinition_regular (I := .passing T) s'.frame.function hr trivial
    fun hnone => (regular_nodes hcalls d').runsOn hcalls hrequestable
      (.entered hr sp params ret hnone trivial hrequestable.declared) span
  exact ⟨j, t', hrun, hsymbol ▸ (hregular.ok hrun).1, hwithin⟩

/-- Requests of the first run are answered in the second one. -/
theorem specialize (h : Replay env env' T depth u)
    (hn : ∀ r', r = r' + 1 → Nodes env env' T u r' depth d')
    (w : Tandem env.program env'.program T u r) {decl : FunctionDecl}
    (hdecl : env.program.function? sp.func = some decl) (hname : sp.name = decl.name)
    (hsp : ∀ body params ret, decl.body = some body → sp.loweredParams = .ok params →
      (∃ span, sp.ret.lowered span = .ok ret) →
      sp.Requestable (fun _ => True) T env.program body params ret) (span : Span) :
    Drives env env' FunctionId w (Tandem.outlook env.program env'.program T u r).declared
      (Gen.specialize (Gen.generate d) sp span) (Gen.specialize (Gen.generate d') sp span) := by
  have hsteps := Drives.steps (T := T) (r := r) h.names h.similar h.config
  refine hsteps.bind (hsteps.ofExcept _) ?_
  rintro x params _ - ⟨rfl, hparams⟩
  refine hsteps.bind (hsteps.ofExcept _) ?_
  rintro y ret _ - ⟨rfl, hret⟩
  refine hsteps.bind (hsteps.functionDecl _) ?_
  rintro z decl' _ - ⟨rfl, hdecl'⟩
  cases hdecl.symm.trans hdecl'
  cases hbody : decl.body with
  | none =>
    have hreserved : Mangling.isReserved sp.name = false := by
      rw [hname]
      exact h.calls.spares decl (Array.mem_of_getElem? hdecl) hbody
    exact Drives.declareExternal h.names hreserved _ _ _ _ _
  | some body =>
    have hrequestable := hsp body params ret hbody hparams ⟨span, hret⟩
    refine Drives.of_obtains h.names (sp.symbol env.program)
      ((requestDefinition_regular (I := .passing T) z.driver.state.frame.function
        z.driver.regular trivial fun hnone => (regular_nodes h.calls d).runsOn h.calls hrequestable
          (.entered z.driver.regular sp params ret hnone trivial hrequestable.declared) span).mono
        (fun i t ht => ⟨ht.1, fun hl => ?_⟩) fun _ _ he => he)
    obtain ⟨f, hf, hfname⟩ := ht.1.function
    have hdefined := hl.table (ht.1.regular.definition.mpr ⟨sp.isReserved_symbol _, f, hf, hfname⟩)
    obtain ⟨hr, -, hw⟩ := z.together (ht.1.precedes.trans hl)
    exact h.answer hn hrequestable hdefined hr hw span

/-- Trees are followed, if there is room for one descent into a recorded body for each definition that
may be lacking. -/
theorem nodes (h : Replay env env' T depth u) :
    ∀ {r d d' : Nat}, d + depth * r ≤ d' → Nodes env env' T u r d d'
  | _, 0, _, _, _, _ => fun w => .of_error rfl (.refl w.driver.state.unit)
  | r, d + 1, 0, hle, _, _ => by omega
  | r, d + 1, d' + 1, hle, n, hcalls => by
    have hsteps := Drives.steps (T := T) (r := r) h.names h.similar h.config
    have hn : Nodes env env' T u r d d' := nodes h (by omega)
    have hc : Coupling (Tandem.outlook env.program env'.program T u r) env env' (fun t => t)
        (Signature.Within (fun _ => True) T) T (Gen.generate d) (Gen.generate d') (Drives env env') := by
      refine hsteps.coupling h.config Drives.literalAddress ?_ ?_
      · intro w signature t hs ht
        refine Drives.look (a := t.substitute w.driver.state.frame.subst) rfl (fun _ => ?_)
          ⟨rfl, h.calls.substitute (hs.2 t ht) w.driver.passed⟩
        rw [← w.framed.subst t]
        rfl
      · intro w signature sp decl typeArgs argCount span args args' hs htypes hdecl hres hargs
        have hresolves := Specialization.resolve_ok hres
        have hfunc : env.program.function? sp.func = some decl := by rw [hresolves.func_eq, hdecl]
        refine hsteps.bind (h.specialize (fun r' hr => nodes h ?_) w hfunc hresolves.name_eq
          (fun body params ret hbody hparams ⟨at', hret⟩ => .of_resolves hresolves trivial htypes hdecl
            hbody hparams hret) span) fun x i j _ hij => ?_
        · subst hr
          rw [Nat.mul_succ] at hle
          omega
        · exact hsteps.callFunction hij hargs rfl
    exact hc.generateNode hcalls.here fun c hunder => hn c (hunder.everywhere hcalls)

end Replay

end TypedLowering
