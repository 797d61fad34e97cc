import TypedLowering.Proofs.Order.Following

/-!
Definitions under other names. A body that has been generated in an empty unit can be generated again
in a unit where the function under construction has the symbol of another specialization, with the same
instructions. Calls of the function itself do not find it there, so its definition is generated on the
way.
-/
namespace TypedLowering
set_option autoImplicit false
open Ssa

namespace UnitState

/-- The unit with a function in its module that is not in the table. -/
def withFunction (u : UnitState) (f : Function) : UnitState :=
  { u with module := u.module.addFunction f }

variable {u : UnitState} {f : Function} {p : Program}

theorem Precedes.withFunction (u : UnitState) (f : Function) : u.Precedes (u.withFunction f) where
  embeds := .addFunction u.module f
  table := id
  raised := id
  requests := ⟨[], rfl⟩

theorem Regular.tellsApart_withFunction (h : u.Regular p)
    (hf : ∀ {id k}, u.module.function? id = some k → k.name ≠ f.name) :
    (u.withFunction f).module.TellsApart := by
  have cases {i : FunctionId} {k : Function} (hk : (u.withFunction f).module.function? i = some k) :
      i = u.module.nextFunction ∧ k = f ∨ u.module.function? i = some k := by
    by_cases hi : i = u.module.nextFunction
    · subst hi
      exact .inl ⟨rfl, (Option.some.inj ((u.module.function?_addFunction_next f).symm.trans hk)).symm⟩
    · exact .inr ((u.module.function?_addFunction_of_ne hi).symm.trans hk)
  intro i j k l hk hl hname
  rcases cases hk with ⟨rfl, rfl⟩ | hold <;> rcases cases hl with ⟨rfl, rfl⟩ | hold'
  · rfl
  · exact (hf hold' hname.symm).elim
  · exact (hf hold hname).elim
  · exact h.unique hold hold' hname

end UnitState

/-- The state before anything has been generated. -/
def GenState.blank (name : String) : GenState := ⟨{ module := { name } }, .outside⟩

/-- The state in which the body of a specialization is entered, with the function of another one under
construction. -/
def GenState.aliased (s : GenState) (sp sp' : Specialization) (symbol : String) (params : List Ty)
    (ret : Ty) : GenState :=
  ⟨(s.started sp' symbol params ret).unit, (s.started sp symbol params ret).frame⟩

namespace Recording

open Gen

variable {env : Env} {T : StaticType → Prop} {depth : Nat} {name : String}

/-- Everything that the run of a body in an empty unit has defined is on record. -/
theorem records_of_blank (hp : env.program.CallsWithin (fun _ => True) T) {r : Recording env T depth}
    (hr : r.before = .blank name) {symbol : String} {id : FunctionId}
    (hid : r.after.unit.specializations.get? symbol = some id) :
    r.after.unit.Records env T depth symbol := by
  have hbase : r.before.unit.RecordsSince env T depth r.before.unit r.after.unit.module.nextFunction :=
    ⟨fun h => .inr (.inl h), rfl⟩
  have hrun := (body_recorded hp (recorded_nodes hp le_rfl) le_rfl r.regular hbase r.requestable
    r.fresh r.span).ok r.run
  rcases hrun.2.2.records hid with rfl | hnone | hrec
  · obtain ⟨-, g, hg, -⟩ := hrun.1.definition.mp hid
    exact (Module.ne_nextFunction hg rfl).elim
  · rw [hr] at hnone
    cases hnone
  · exact hrec

theorem in_after (hp : env.program.CallsWithin (fun _ => True) T) (r : Recording env T depth) :
    r.In r.after.unit := by
  obtain ⟨f, hf, -⟩ := (r.adds hp).2.embeds.function
    (r.before.unit.module.function?_addFunction_next _)
  exact ⟨.refl _, f, f.linkage, hf, hf⟩

/-- A body on record is followed under the symbol of another specialization with the same low-level
signature, if a unit is given that has it and what the body has led to. -/
theorem follow_aliased {r : Recording env T depth} (hr : r.before = .blank name)
    {sp : Specialization} {u : UnitState} (h : Replay env env T depth u) (hin : r.In u)
    (hsymbol : ∃ i f, u.module.function? i = some f ∧
      f.heading = (sp.symbol env.program, r.params, r.ret, false, false)) :
    ∃ depth' t, generateBody (Gen.generate depth') r.specialization r.body r.span env
        (r.before.aliased r.specialization sp (sp.symbol env.program) r.params r.ret) = .ok () t ∧
      r.after.SameBody t := by
  obtain ⟨i, f, hf, hh⟩ := hsymbol
  have hregular : (r.before.started sp (sp.symbol env.program) r.params r.ret).unit.Regular
      env.program := r.regular.started sp r.params r.ret (by rw [hr]; rfl)
  have hwithin : u.Within u.defined.length
      (r.before.started sp (sp.symbol env.program) r.params r.ret).unit := by
    refine ⟨fun {id g} hg => ?_, fun hc => ?_, List.countP_le_length⟩
    · by_cases hid : id = r.before.unit.module.nextFunction
      · subst hid
        cases (r.before.unit.module.function?_addFunction_next _).symm.trans hg
        exact ⟨i, f, hf, hh⟩
      · have hg := (r.before.unit.module.function?_addFunction_of_ne hid).symm.trans hg
        rw [hr] at hg
        cases hg
    · have hc : r.before.unit.gcRequired = true := hc
      rw [hr] at hc
      cases hc
  obtain ⟨t, hrun, ht⟩ := h.follow_from (r := u.defined.length)
    (v := r.before.aliased r.specialization sp (sp.symbol env.program) r.params r.ret)
    (h.nodes (Nat.le_refl _)) hin hregular rfl ⟨_, _, r.before.unit.module.function?_addFunction_next _,
      r.before.unit.module.function?_addFunction_next _, (Function.Alike.shell _ _ _ _ _ _).addBlock _⟩
      hwithin
  exact ⟨_, t, hrun, ht.body⟩

/-- A body that has been generated in an empty unit is generated under the symbol of another
specialization as well. -/
theorem exists_aliased (hp : env.program.CallsWithin (fun _ => True) T)
    (hd : env.program.DistinctSymbols T) {r : Recording env T depth} (hr : r.before = .blank name)
    {sp : Specialization} {body : Node}
    (hsp : sp.Requestable (fun _ => True) T env.program body r.params r.ret) :
    ∃ depth' t, generateBody (Gen.generate depth') r.specialization r.body r.span env
        (r.before.aliased r.specialization sp (sp.symbol env.program) r.params r.ret) = .ok () t ∧
      r.after.SameBody t := by
  have hregular := (r.adds hp).1
  have hin := r.in_after hp
  cases htable : r.after.unit.specializations.get? (sp.symbol env.program) with
  | some i =>
    refine r.follow_aliased hr ⟨.refl env, rfl, hp, hd, hregular.unique, r.records_of_blank hp hr⟩ hin ?_
    obtain ⟨r', hsymbol, hin'⟩ := r.records_of_blank hp hr htable
    obtain rfl : r'.specialization = sp := hd _ _ r'.requestable.declared hsp.declared hsymbol
    obtain ⟨-, hparams, hret⟩ := r'.requestable.unique hsp
    obtain ⟨f, hf, hh⟩ := hin'.heading hp
    exact ⟨_, f, hf, by rw [hh, hsymbol, hparams, hret]⟩
  | none =>
    let k : Function := .shell (sp.symbol env.program) r.params r.ret .internal
    have hfresh {id : FunctionId} {g : Function} (hg : r.after.unit.module.function? id = some g) :
        g.name ≠ k.name := by
      intro hname
      cases htable.symm.trans (hregular.definition.mpr ⟨sp.isReserved_symbol _, g, hg, hname⟩)
    have later {r' : Recording env T depth} (h : r'.In r.after.unit) :
        r'.In (r.after.unit.withFunction k) := by
      refine h.later (.withFunction _ k) fun f hf => ⟨f.linkage, ?_⟩
      exact (r.after.unit.module.function?_addFunction_of_ne (Module.ne_nextFunction hf)).trans hf
    refine r.follow_aliased hr (u := r.after.unit.withFunction k) ⟨.refl env, rfl, hp, hd,
      hregular.tellsApart_withFunction hfresh, fun {symbol id} hid => ?_⟩ (later hin)
      ⟨_, k, r.after.unit.module.function?_addFunction_next k, rfl⟩
    obtain ⟨r', hsymbol, hin'⟩ := r.records_of_blank hp hr hid
    exact ⟨r', hsymbol, later hin'⟩

end Recording

end TypedLowering
