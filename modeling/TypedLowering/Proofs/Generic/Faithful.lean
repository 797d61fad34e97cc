import TypedLowering.Proofs.Generic.Copy
import TypedLowering.Proofs.Generic.Lockstep
import TypedLowering.Proofs.Order.Alias
import TypedLowering.Proofs.Order.Permutation

/-!
A generic function at type arguments and its copy. The substitution is no pass over the tree: types are
looked up one by one while code is generated. So whatever code comes out, it has to be the code of the
copy, whose tree has the types in place.

The two are different functions with different symbols. A call of the generic function that comes back
to it finds the definition, one in the code of the copy generates it; what is generated is the same, but
of two errors another one may come first.
-/
namespace TypedLowering
set_option autoImplicit false
open Ssa

/-! ## Specializing on its own -/

namespace Gen

/-- Specializes a function for a call with type arguments and a number of arguments. -/
def specializeAt (depth : Nat) (func : FuncId) (typeArgs : List StaticType) (argCount : Nat)
    (span : Span) : Gen FunctionId := do
  let decl ← functionDecl func
  let s ← ofExcept (Specialization.resolve (← program) func decl typeArgs argCount span)
  specialize (Gen.generate depth) s span

end Gen

/-- The module that a function is specialized to in an empty unit, and the number of its definition
there. -/
def Env.specialized (env : Env) (depth : Nat) (func : FuncId) (typeArgs : List StaticType)
    (argCount : Nat) (span : Span) : Except Failure (FunctionId × Module) :=
  match Gen.specializeAt depth func typeArgs argCount span env (.blank env.config.moduleName) with
  | .ok id s => .ok (id, s.unit.module)
  | .error e _ => .error e

/-- What a function is specialized to in an empty unit as soon as the recursion may be deep enough. -/
def Specializes (env : Env) (func : FuncId) (typeArgs : List StaticType) (argCount : Nat) (span : Span)
    (result : Except Failure (FunctionId × Module)) : Prop :=
  result ≠ .error .exhausted ∧ ∃ enough, ∀ depth, enough ≤ depth →
    env.specialized depth func typeArgs argCount span = result

/-- Definitions in two modules with the same code, up to the numbers of functions, structs and constant
arrays. -/
def SameCode (out out' : FunctionId × Module) : Prop :=
  ∃ f f', out.2.function? out.1 = some f ∧ out'.2.function? out'.1 = some f' ∧ f.Alike out.2 out'.2 f'

variable {env : Env} {func : FuncId} {typeArgs : List StaticType} {argCount : Nat} {span : Span}
  {depth depth' : Nat}

/-- More depth changes nothing but where generation runs out of it. -/
theorem Env.specialized_eq (hle : depth ≤ depth')
    (hne : env.specialized depth func typeArgs argCount span ≠ .error .exhausted) :
    env.specialized depth' func typeArgs argCount span =
      env.specialized depth func typeArgs argCount span := by
  have h : Gen.Outlasts env FunctionId ⟨.blank env.config.moduleName⟩ (fun _ => Eq)
      (Gen.specializeAt depth func typeArgs argCount span)
      (Gen.specializeAt depth' func typeArgs argCount span) := by
    refine .after fun x decl => .after fun y p => .after fun z s => ?_
    exact .specialize fun b _ => .body (Gen.Outlasts.nodes env hle) s span b
  unfold Env.specialized at hne ⊢
  cases hrun : Gen.specializeAt depth func typeArgs argCount span env (.blank env.config.moduleName) with
  | ok id s =>
    obtain ⟨_, hrun', rfl⟩ := h.ok hrun
    have hrun' : Gen.specializeAt depth' func typeArgs argCount span env
      (.blank env.config.moduleName) = .ok id s := hrun'
    rw [hrun']
  | error e s =>
    rw [hrun] at hne
    rcases h.error hrun with rfl | hrun'
    · exact (hne rfl).elim
    · have hrun' : Gen.specializeAt depth' func typeArgs argCount span env
        (.blank env.config.moduleName) = .error e s := hrun'
      rw [hrun']

theorem specializes_iff {result : Except Failure (FunctionId × Module)}
    (hne : result ≠ .error .exhausted) : Specializes env func typeArgs argCount span result ↔
      ∃ depth, env.specialized depth func typeArgs argCount span = result := by
  constructor
  · rintro ⟨-, enough, henough⟩
    exact ⟨enough, henough enough le_rfl⟩
  · rintro ⟨depth, hdepth⟩
    exact ⟨hne, depth, fun depth' hle => by rw [Env.specialized_eq hle (hdepth ▸ hne), hdepth]⟩

theorem Specializes.unique {result result' : Except Failure (FunctionId × Module)}
    (h : Specializes env func typeArgs argCount span result)
    (h' : Specializes env func typeArgs argCount span result') : result = result' := by
  obtain ⟨-, enough, henough⟩ := h
  obtain ⟨-, enough', henough'⟩ := h'
  exact (henough _ (Nat.le_max_left _ _)).symm.trans (henough' _ (Nat.le_max_right enough enough'))

/-- Whether a run fails, and how. -/
def failsWith {α : Type} (result : Except Failure α) (e : Failure) : Bool :=
  match result with
  | .ok _ => false
  | .error e' => e' = e

theorem specializes_of_failsWith {e : Failure} (depth : Nat)
    (h : failsWith (env.specialized depth func typeArgs argCount span) e = true)
    (he : e ≠ .exhausted) : Specializes env func typeArgs argCount span (.error e) := by
  refine (specializes_iff (by simpa using he)).mpr ⟨depth, ?_⟩
  generalize env.specialized depth func typeArgs argCount span = r at h
  cases r with
  | ok _ => cases h
  | error e' => rw [of_decide_eq_true h]

section Runs

variable {decl : FunctionDecl} (hdecl : env.program.function? func = some decl)

include hdecl

theorem Env.specialized_eq_resolve (depth : Nat) : env.specialized depth func typeArgs argCount span =
    match Specialization.resolve env.program func decl typeArgs argCount span with
    | .error e => .error (.reported e)
    | .ok sp =>
      match Gen.specialize (Gen.generate depth) sp span env (.blank env.config.moduleName) with
      | .ok id s => .ok (id, s.unit.module)
      | .error e _ => .error e := by
  have hrun (s : GenState) : Gen.specializeAt depth func typeArgs argCount span env s =
      (do
        let sp ← Gen.ofExcept (Specialization.resolve env.program func decl typeArgs argCount span)
        Gen.specialize (Gen.generate depth) sp span : Gen FunctionId) env s := by
    unfold Gen.specializeAt
    rw [Gen.run_bind, Gen.ends_functionDecl func s, hdecl]
    rfl
  unfold Env.specialized
  rw [hrun]
  cases Specialization.resolve env.program func decl typeArgs argCount span <;> rfl

/-- What a function with a body is specialized to. -/
theorem Env.specialized_of_resolved {body : Node} (hbody : decl.body = some body) {sp : Specialization}
    (hsp : Specialization.resolve env.program func decl typeArgs argCount span = .ok sp)
    {params : List Ty} {ret : Ty} (hparams : sp.loweredParams = .ok params)
    (hret : sp.ret.lowered span = .ok ret) (depth : Nat) :
    env.specialized depth func typeArgs argCount span =
      match Gen.generateBody (Gen.generate depth) sp body span env
          ((GenState.blank env.config.moduleName).started sp (sp.symbol env.program) params ret) with
      | .ok _ t => .ok (⟨0⟩, t.unit.module)
      | .error e _ => .error e := by
  have hfunc : env.program.function? sp.func = some decl := by
    rw [(Specialization.resolve_ok hsp).func_eq, hdecl]
  have hrun (s : GenState) : Gen.specialize (Gen.generate depth) sp span env s =
      Gen.requestDefinition (Gen.generate depth) sp body params ret span env s := by
    refine Gen.Leads.run_eq (Gen.specialize_cases (fun hrefused => ?_) ?_ ?_)
    · exact (hrefused ⟨params, ret, decl, hparams, hret, hfunc⟩).elim
    · intro decl' _ _ hdecl' hnone _ _
      cases hfunc.symm.trans hdecl'
      cases hbody.symm.trans hnone
    · intro decl' _ _ _ hdecl' hbody' hparams' hret'
      cases hfunc.symm.trans hdecl'
      cases hbody.symm.trans hbody'
      cases hparams.symm.trans hparams'
      cases hret.symm.trans hret'
      exact .intro (fun _ _ h => h) fun _ _ h => h
  rw [Env.specialized_eq_resolve hdecl, hsp]
  dsimp only
  rw [hrun, Gen.requestDefinition_run]
  show (match (match Gen.generateBody (Gen.generate depth) sp body span env
      ((GenState.blank env.config.moduleName).started sp (sp.symbol env.program) params ret) with
    | .ok _ t => EStateM.Result.ok _ _
    | .error e t => .error e t : EStateM.Result Failure GenState FunctionId) with
    | .ok id s => Except.ok (id, s.unit.module)
    | .error e _ => .error e) = _
  cases Gen.generateBody (Gen.generate depth) sp body span env
    ((GenState.blank env.config.moduleName).started sp (sp.symbol env.program) params ret) <;> rfl

section Settled

variable {body : Node} (hbody : decl.body = some body) {sp : Specialization}
  (hsp : Specialization.resolve env.program func decl typeArgs argCount span = .ok sp)
  {params : List Ty} {ret : Ty} (hparams : sp.loweredParams = .ok params)
  (hret : sp.ret.lowered span = .ok ret)

include hbody hsp hparams hret

theorem specializes_ok_iff {out : FunctionId × Module} :
    Specializes env func typeArgs argCount span (.ok out) ↔ ∃ depth t,
      Gen.generateBody (Gen.generate depth) sp body span env
        ((GenState.blank env.config.moduleName).started sp (sp.symbol env.program) params ret) =
          .ok () t ∧ (⟨0⟩, t.unit.module) = out := by
  rw [specializes_iff (by simp)]
  refine exists_congr fun depth => ?_
  rw [Env.specialized_of_resolved hdecl hbody hsp hparams hret]
  cases Gen.generateBody (Gen.generate depth) sp body span env
    ((GenState.blank env.config.moduleName).started sp (sp.symbol env.program) params ret) with
  | ok _ t => simp
  | error e t => simp

theorem specializes_error_iff {e : Failure} :
    Specializes env func typeArgs argCount span (.error e) ↔ e ≠ .exhausted ∧ ∃ depth t,
      Gen.generateBody (Gen.generate depth) sp body span env
        ((GenState.blank env.config.moduleName).started sp (sp.symbol env.program) params ret) =
          .error e t := by
  by_cases he : e = .exhausted
  · subst he
    exact iff_of_false (fun h => h.1 rfl) fun h => h.1 rfl
  rw [specializes_iff (by simpa using he), and_iff_right he]
  refine exists_congr fun depth => ?_
  rw [Env.specialized_of_resolved hdecl hbody hsp hparams hret]
  cases Gen.generateBody (Gen.generate depth) sp body span env
    ((GenState.blank env.config.moduleName).started sp (sp.symbol env.program) params ret) with
  | ok _ t => simp
  | error e t => simp

end Settled

/-- A call that cannot be resolved fails at every depth. -/
theorem specializes_refused_iff {e : LoweringError}
    (hsp : Specialization.resolve env.program func decl typeArgs argCount span = .error e)
    {result : Except Failure (FunctionId × Module)} :
    Specializes env func typeArgs argCount span result ↔ result = .error (.reported e) := by
  have hrun (depth : Nat) : env.specialized depth func typeArgs argCount span =
      .error (.reported e) := by
    rw [Env.specialized_eq_resolve hdecl, hsp]
  constructor
  · rintro ⟨-, enough, henough⟩
    exact (henough enough le_rfl).symm.trans (hrun enough)
  · rintro rfl
    exact ⟨by simp, 0, fun depth _ => hrun depth⟩

end Runs

/-! ## Specializations of the same code -/

/-- Specializations of functions with the same tree, where the types in the second one are those of the
first under `φ`, and come to the same. -/
structure Specialization.Mirrors (φ : StaticType → StaticType) (sp sp' : Specialization) : Prop where
  name : sp'.name = sp.name
  owner : sp'.owner = sp.owner
  isInstance : sp'.isInstance = sp.isInstance
  params : sp'.params = sp.params.map (ResolvedParam.retyped φ)
  ret : sp'.ret = sp.ret
  subst : ∀ t : StaticType, (φ t).substitute sp'.subst = t.substitute sp.subst

theorem Specialization.mirrors_instantiated {sp : Specialization}
    (h : ∀ {name t}, sp.subst.get? name = some t → t.IsCollapsed) (func' : FuncId) :
    Mirrors (StaticType.substitute sp.subst) sp (sp.instantiated func') where
  name := rfl
  owner := rfl
  isInstance := rfl
  params := rfl
  ret := rfl
  subst := StaticType.substitute_substitute_empty h

/-- The frame in which the body of a specialization is entered. -/
def Specialization.frame (sp : Specialization) (id : FunctionId) : Frame :=
  { Frame.outside with
    function := id, block := Function.entry, subst := sp.subst, returnType := sp.ret }

namespace Specialization.Mirrors

variable {φ : StaticType → StaticType} {sp sp' : Specialization} (hm : Mirrors φ sp sp')
  {N : String → Prop} {T : StaticType → Prop} {Called : FuncId → Prop} {p : Program} {body : Node}

include hm

/-- The states in which the two bodies are entered. -/
def world (hsp : sp.Declared T p) (id : FunctionId) {u u' : UnitState} (hu : u.Renamed N u') :
    Lockstep N T φ where
  first := ⟨u, sp.frame id⟩
  second := ⟨u', sp'.frame id⟩
  unit := hu
  function := rfl
  frame := ⟨rfl, .nil, hm.ret, rfl, hm.subst, .none⟩
  passed := hsp.subst

/-- Both bodies are gone over in step. -/
theorem inStep (h : env.program.Blind Called T N) (hsp : sp.Declared T env.program) (id : FunctionId)
    {u u' : UnitState} (hu : u.Renamed N u') (hbody : body.CallsWithin Called T)
    (hdefault : ∀ q ∈ sp.params, ∀ n, q.default = some n → n.CallsWithin Called T) (depth : Nat)
    (span : Span) :
    Gen.InStep env Unit (hm.world hsp id hu) (fun _ => Eq)
      (Gen.generateBody (Gen.generate depth) sp body span)
      (Gen.generateBody (Gen.generate depth) sp' (body.retyped φ) span) :=
  .generateBody h.reserved hm.name hm.owner hm.isInstance hm.params
    (Gen.lockstep_nodes h depth body hbody)
    (fun q hq n hn => Gen.lockstep_nodes h depth n (hdefault q hq n hn)) span

end Specialization.Mirrors

/-- With nothing to be blind to, all of a program can be gone over. -/
theorem Program.CallsWithin.blind {T : StaticType → Prop} {p : Program}
    (hp : p.CallsWithin (fun _ => True) T) : p.Blind (fun _ => True) T fun _ => False where
  body := fun _ => hp.everywhere.body
  default := fun _ => hp.everywhere.default
  substitute := hp.substitute
  spares := hp.spares
  reserved := False.elim
  apart := fun _ _ => id

/-- A function stays alike where the same unit takes the place of another. -/
theorem GenState.SameBody.congr {s t t' : GenState} (h : s.SameBody t)
    (hu : t.unit.Renamed (fun _ => False) t'.unit) (hfunction : t'.frame.function = t.frame.function) :
    s.SameBody t' := by
  obtain ⟨f, g, hf, hg, ha⟩ := h
  obtain ⟨g', hg', hsame⟩ : ∃ g', t'.unit.module.function? t.frame.function = some g' ∧ g' = g := by
    have hrel := hu.function t.frame.function
    rw [hg] at hrel
    generalize t'.unit.module.function? t.frame.function = a' at hrel
    cases hrel with
    | some hg' => exact ⟨_, rfl, hg'.eq_of_none⟩
  exact ⟨f, g', hf, by rw [hfunction, hg'], hsame ▸ ha.mono (.refl _) hu.embeds⟩

section Mirrored

variable {T : StaticType → Prop} {φ : StaticType → StaticType} {sp sp' : Specialization} {body : Node}
  {params : List Ty} {ret : Ty} {name : String} {t : GenState}

variable (hp : env.program.CallsWithin (fun _ => True) T) (hd : env.program.DistinctSymbols T)
  (hm : sp.Mirrors φ sp') (hsp : sp.Requestable (fun _ => True) T env.program body params ret)
  (hsp' : sp'.Requestable (fun _ => True) T env.program (body.retyped φ) params ret)

include hp hd hm hsp hsp'

/-- Where the first body can be generated, the second one can, with the same code. -/
theorem Specialization.Mirrors.there (hrun : Gen.generateBody (Gen.generate depth) sp body span env
    ((GenState.blank name).started sp (sp.symbol env.program) params ret) = .ok () t) :
    ∃ depth' t', Gen.generateBody (Gen.generate depth') sp' (body.retyped φ) span env
      ((GenState.blank name).started sp' (sp'.symbol env.program) params ret) = .ok () t' ∧
      t.SameBody t' := by
  let r : Recording env T depth :=
    ⟨.blank name, t, sp, body, params, ret, span, .new _ _, hsp, rfl, hrun⟩
  -- first the other symbol, with the tree as it is; then the other tree, in the same unit
  obtain ⟨depth', t₁, hrun₁, hsame⟩ := r.exists_aliased hp hd rfl hsp'
  have hstep := hm.inStep hp.blind hsp.declared r.id
    (.refl ((GenState.blank name).started sp' (sp'.symbol env.program) params ret).unit)
    (hsp.body_within hp) (hsp.default_within hp) depth' span
  cases hstep with
  | error hm₁ _ => cases hrun₁.symm.trans hm₁
  | ok x hm₁ hm₂ _ =>
    cases hrun₁.symm.trans hm₁
    exact ⟨depth', x.second, hm₂, hsame.congr x.unit x.function⟩

/-- Where the second body can be generated, the first one can. -/
theorem Specialization.Mirrors.back (hrun : Gen.generateBody (Gen.generate depth) sp' (body.retyped φ)
    span env ((GenState.blank name).started sp' (sp'.symbol env.program) params ret) = .ok () t) :
    ∃ depth' t', Gen.generateBody (Gen.generate depth') sp body span env
      ((GenState.blank name).started sp (sp.symbol env.program) params ret) = .ok () t' := by
  let r : Recording env T depth :=
    ⟨.blank name, t, sp', body.retyped φ, params, ret, span, .new _ _, hsp', rfl, hrun⟩
  obtain ⟨depth', t₁, hrun₁, -⟩ := r.exists_aliased hp hd rfl hsp
  have hstep := hm.inStep hp.blind hsp.declared r.id
    (.refl ((GenState.blank name).started sp (sp.symbol env.program) params ret).unit)
    (hsp.body_within hp) (hsp.default_within hp) depth' span
  cases hstep with
  | error _ hm₂ => cases hrun₁.symm.trans hm₂
  | ok x hm₁ _ _ => exact ⟨depth', x.first, hm₁⟩

end Mirrored

/-! ## Functions that do not lead back -/

namespace FunctionDecl.HasNode

variable {p : Program} {T : StaticType → Prop} {decl : FunctionDecl} {Called : FuncId → Prop}

theorem everywhere {P : Node → Prop} (hp : p.Everywhere P) (hdecl : p.function? func = some decl)
    {n : Node} (hn : decl.HasNode n) : n.Everywhere P := by
  induction hn with
  | body hn => exact hp.body hdecl hn
  | default hq hn => exact hp.default hdecl hq hn
  | child _ hc ih =>
    cases ih with
    | mk _ hchildren => exact hchildren _ hc

/-- If all that a function calls has `Called`, its code has calls of such functions only. -/
theorem callsWithin_called (hp : p.CallsWithin (fun _ => True) T)
    (hdecl : p.function? func = some decl) (hcalled : ∀ g, p.Calls func g → Called g) (n : Node)
    (hn : decl.HasNode n) : n.CallsWithin Called T :=
  ⟨fun s hs => ⟨hcalled _ ⟨decl, n, s, hdecl, hn, hs, rfl⟩,
      ((hn.everywhere hp.everywhere hdecl).here s hs).2⟩,
    fun c hc => callsWithin_called hp hdecl hcalled c (.child hn hc)⟩
termination_by sizeOf n
decreasing_by exact Node.sizeOf_lt_of_mem_children hc

end FunctionDecl.HasNode

/-- What a function leads to can be gone over without seeing the symbols of specializations of
functions that it does not lead to. -/
theorem Program.CallsWithin.blind_leadsTo {p : Program} {T : StaticType → Prop}
    (hp : p.CallsWithin (fun _ => True) T) (hd : p.DistinctSymbols T) {sp sp' : Specialization}
    (hsp : sp.Declared T p) (hsp' : sp'.Declared T p) (h : ¬ p.LeadsTo func sp.func)
    (h' : ¬ p.LeadsTo func sp'.func) :
    p.Blind (p.LeadsTo func) T fun name => name = sp.symbol p ∨ name = sp'.symbol p where
  body := fun hf hdecl hn => FunctionDecl.HasNode.callsWithin_called hp hdecl (fun _ hg => hf.tail hg) _
    (.body hn)
  default := fun hf hdecl hq hn => FunctionDecl.HasNode.callsWithin_called hp hdecl
    (fun _ hg => hf.tail hg) _ (.default hq hn)
  substitute := hp.substitute
  spares := hp.spares
  reserved := by
    rintro _ (rfl | rfl)
    · exact sp.isReserved_symbol p
    · exact sp'.isReserved_symbol p
  apart := by
    rintro other hother hcalled (hsymbol | hsymbol)
    · exact h (hd other sp hother hsp hsymbol ▸ hcalled)
    · exact h' (hd other sp' hother hsp' hsymbol ▸ hcalled)

/-- If the first function leads to neither of the two, the bodies fail with the same error. -/
theorem Specialization.Mirrors.error_iff {T : StaticType → Prop} {φ : StaticType → StaticType}
    {sp sp' : Specialization} {body : Node} {params : List Ty} {ret : Ty} {name : String}
    (hm : sp.Mirrors φ sp') (hp : env.program.CallsWithin (fun _ => True) T)
    (hd : env.program.DistinctSymbols T)
    (hsp : sp.Requestable (fun _ => True) T env.program body params ret)
    (hsp' : sp'.Declared T env.program) (h : ¬ env.program.LeadsTo sp.func sp.func)
    (h' : ¬ env.program.LeadsTo sp.func sp'.func) (e : Failure) :
    (∃ t, Gen.generateBody (Gen.generate depth) sp body span env
        ((GenState.blank name).started sp (sp.symbol env.program) params ret) = .error e t) ↔
      ∃ t, Gen.generateBody (Gen.generate depth) sp' (body.retyped φ) span env
        ((GenState.blank name).started sp' (sp'.symbol env.program) params ret) = .error e t := by
  obtain ⟨decl, hdecl, hbody⟩ := hsp.function
  have within {n : Node} (hn : decl.HasNode n) : n.CallsWithin (env.program.LeadsTo sp.func) T :=
    hn.callsWithin_called hp hdecl (fun _ => .single) n
  have hunit : (((GenState.blank name).started sp (sp.symbol env.program) params ret).unit.Renamed
      (fun name => name = sp.symbol env.program ∨ name = sp'.symbol env.program)
      ((GenState.blank name).started sp' (sp'.symbol env.program) params ret).unit) :=
    UnitState.Renamed.started (.refl _) sp sp' (.inr ⟨.inl rfl, .inr rfl⟩) params ret
  have hdefaults : ∀ q ∈ sp.params, ∀ n, q.default = some n →
      n.CallsWithin (env.program.LeadsTo sp.func) T := by
    intro q hq n hn
    obtain ⟨decl', _, _, hdecl', -, hres⟩ := hsp.declared.resolves
    cases hdecl.symm.trans hdecl'
    obtain ⟨param, hparam, hdefault⟩ := hres.exists_default hq hn
    exact within (.default hparam hdefault)
  have hstep := hm.inStep (hp.blind_leadsTo hd hsp.declared hsp' h h') hsp.declared
    (GenState.blank name).unit.module.nextFunction hunit (within (.body hbody)) hdefaults depth span
  cases hstep with
  | ok x hm₁ hm₂ _ =>
    refine iff_of_false ?_ ?_
    · rintro ⟨_, hrun⟩
      cases hrun.symm.trans hm₁
    · rintro ⟨_, hrun⟩
      cases hrun.symm.trans hm₂
  | @error e₀ s s' hm₁ hm₂ =>
    constructor
    · rintro ⟨_, hrun⟩
      cases hrun.symm.trans hm₁
      exact ⟨s', hm₂⟩
    · rintro ⟨_, hrun⟩
      cases hrun.symm.trans hm₂
      exact ⟨s, hm₁⟩

/-! ## Copies -/

/-- Monomorphization is faithful. Let symbols tell specializations apart, and no function that is defined
elsewhere have a reserved name. A generic function with a body and its copy at type arguments are
specialized to the same code, up to the numbers of functions, structs and constant arrays; if one cannot
be specialized, neither can the other. They fail with the same error if the function leads neither back
to itself nor to its copy. -/
theorem specializes_instantiated {T : StaticType → Prop} {func' : FuncId} {decl : FunctionDecl}
    (hp : env.program.CallsWithin (fun _ => True) T) (hd : env.program.DistinctSymbols T)
    (hdecl : env.program.function? func = some decl)
    (hcopy : env.program.function? func' = some (decl.instantiated typeArgs))
    (hbody : decl.body.isSome = true) (hlength : decl.typeParams.length = typeArgs.length)
    (hargs : ∀ t ∈ typeArgs, T t ∧ t.IsCollapsed) (argCount : Nat) (span : Span) :
    ((∃ out, Specializes env func typeArgs argCount span (.ok out)) ↔
      ∃ out', Specializes env func' [] argCount span (.ok out')) ∧
    (∀ out out', Specializes env func typeArgs argCount span (.ok out) →
      Specializes env func' [] argCount span (.ok out') → SameCode out out') ∧
    (¬ env.program.LeadsTo func func → ¬ env.program.LeadsTo func func' → ∀ e,
      Specializes env func typeArgs argCount span (.error e) ↔
        Specializes env func' [] argCount span (.error e)) := by
  obtain ⟨body, hbody⟩ := Option.isSome_iff_exists.mp hbody
  have hcollapsed {name : String} {t : StaticType}
      (h : (decl.binding typeArgs).get? name = some t) : t.IsCollapsed :=
    (hargs t (FunctionDecl.mem_of_binding h)).2
  have hresolve := Specialization.resolve_instantiated (p := env.program) hlength hcollapsed func func'
    argCount span
  cases hsp : Specialization.resolve env.program func decl typeArgs argCount span with
  | error e =>
    rw [hsp] at hresolve
    simp only [specializes_refused_iff hdecl hsp, specializes_refused_iff hcopy hresolve]
    exact ⟨by simp, by simp, by simp⟩
  | ok sp =>
    rw [hsp] at hresolve
    have hres := Specialization.resolve_ok hsp
    have hres' := Specialization.resolve_ok hresolve
    obtain ⟨params, ret, hparams, hret⟩ := hres.exists_lowered span
    have hparams' : (sp.instantiated func').loweredParams = .ok params := by
      rw [Specialization.loweredParams_instantiated, hparams]
    have hbody' : (decl.instantiated typeArgs).body =
        some (body.retyped (StaticType.substitute sp.subst)) := by
      rw [hres.subst_eq]
      show decl.body.map _ = _
      rw [hbody]
      rfl
    have hrequestable : sp.Requestable (fun _ => True) T env.program body params ret :=
      .of_resolves hres trivial (fun t ht => (hargs t ht).1) hdecl hbody hparams hret
    have hrequestable' : (sp.instantiated func').Requestable (fun _ => True) T env.program
        (body.retyped (StaticType.substitute sp.subst)) params ret :=
      .of_resolves hres' trivial (fun _ ht => by cases ht) hcopy hbody' hparams' hret
    have hmirrors : sp.Mirrors (StaticType.substitute sp.subst) (sp.instantiated func') :=
      Specialization.mirrors_instantiated (fun h => hcollapsed (by rwa [hres.subst_eq] at h)) func'
    have hok := @specializes_ok_iff _ _ _ _ _ _ hdecl _ hbody _ hsp _ _ hparams hret
    have hok' := @specializes_ok_iff _ _ _ _ _ _ hcopy _ hbody' _ hresolve _ _ hparams' hret
    refine ⟨⟨?_, ?_⟩, ?_, fun h h' e => ?_⟩
    · rintro ⟨out, h⟩
      obtain ⟨depth, t, hrun, -⟩ := hok.mp h
      obtain ⟨depth', t', hrun', -⟩ := hmirrors.there hp hd hrequestable hrequestable' hrun
      exact ⟨_, hok'.mpr ⟨depth', t', hrun', rfl⟩⟩
    · rintro ⟨out, h⟩
      obtain ⟨depth, t, hrun, -⟩ := hok'.mp h
      obtain ⟨depth', t', hrun'⟩ := hmirrors.back hp hd hrequestable hrequestable' hrun
      exact ⟨_, hok.mpr ⟨depth', t', hrun', rfl⟩⟩
    · intro out out' h h'
      obtain ⟨depth, t, hrun, rfl⟩ := hok.mp h
      obtain ⟨depth', t', hrun', f, f', hf, hf', halike⟩ :=
        hmirrors.there hp hd hrequestable hrequestable' hrun
      cases h'.unique (hok'.mpr ⟨depth', t', hrun', rfl⟩)
      have started {sp : Specialization} {body : Node} {symbol : String} {depth : Nat} {t : GenState}
          (hrun : Gen.generateBody (Gen.generate depth) sp body span env
            ((GenState.blank env.config.moduleName).started sp symbol params ret) = .ok () t) :
          t.frame.function = ⟨0⟩ :=
        ((Gen.generateBody_persists depth sp body span _).ok hrun).2
      rw [started hrun] at hf
      rw [started hrun'] at hf'
      exact ⟨f, f', hf, hf', halike⟩
    · rw [specializes_error_iff hdecl hbody hsp hparams hret,
        specializes_error_iff hcopy hbody' hresolve hparams' hret]
      rw [← hres.func_eq] at h h'
      exact and_congr_right fun _ => exists_congr fun depth =>
        hmirrors.error_iff hp hd hrequestable hrequestable'.declared h h' e

/-- A call of another generic function at the type parameter, and a default:
`function same<T>(x: T): T { return x; }` and
`function pass<T>(x: T, n: int = 1): T { return same<T>(x); }`, with the copy at `int`. -/
def passingEnv : Env :=
  let node (t : StaticType) (form : Form Node) : Node := .mk ⟨0⟩ .dummy t form
  let returning (n : Node) : Node := node .void (.block [node .void (.ret (some n))])
  let x : Node := node (.param "T") (.identifier "x")
  let same : FunctionDecl :=
    { name := "same"
      typeParams := ["T"]
      params := [{ name := "x", type := .param "T" }]
      ret := .param "T"
      body := some (returning x) }
  let pass : FunctionDecl :=
    { name := "pass"
      typeParams := ["T"]
      params := [{ name := "x", type := .param "T" },
        { name := "n", type := .int, optional := true
          default := some (node .int (.numericLiteral "1")) }]
      ret := .param "T"
      body := some (returning (node (.param "T")
        (.call (node .void (.identifier "same")) [x] (some ⟨⟨0⟩, [.param "T"]⟩)))) }
  { program := { functions := #[same, pass, pass.instantiated [.int]] }
    config := {}
    registry := .standard }

theorem namedBy_passing : passingEnv.program.NamedBy fun _ => ⟨0⟩ := by
  have hall : ∀ decl ∈ passingEnv.program.functions.toList, startsWithDigit decl.name = false ∧
      ∀ q ∈ decl.params, q.type = .param "T" ∨ q.type = .int := by
    decide +kernel
  have hdecl {f decl} (hf : passingEnv.program.function? f = some decl) :=
    hall decl (Array.mem_toList_iff.mpr (Array.mem_of_getElem? hf))
  have hparam : (StaticType.param "T").NamedBy fun _ => ⟨0⟩ :=
    (by decide : startsWithDigit "T" = false)
  have hpassed : passingEnv.program.passesWithin (fun n => n.signature?.all fun s =>
      s.typeArgs.all fun t => t = .param "T" ∨ t = .int) 6 = true := by
    decide +kernel
  refine ⟨fun hf => (hdecl hf).1, fun cls => ?_, fun hf hq => ?_, ?_⟩
  · have hnone : passingEnv.program.className cls = "" := rfl
    rw [hnone]
    rfl
  · rcases (hdecl hf).2 _ hq with ht | ht <;> rw [ht]
    · exact hparam
    · trivial
  · refine (Program.everywhere_of_passesWithin 6 hpassed).mono fun n hn s hs t ht => ?_
    rw [hs, Option.all_some, List.all_eq_true] at hn
    rcases of_decide_eq_true (hn t ht) with rfl | rfl
    · exact hparam
    · trivial

theorem distinctSymbols_passing :
    passingEnv.program.DistinctSymbols (StaticType.NamedBy fun _ => ⟨0⟩) := by
  refine namedBy_passing.distinctSymbols_of_arity fun {f g decl decl'} hf hg _ _ _ hname hcount => ?_
  exact Program.eq_of_key_eq (fun decl => (decl.name, decl.typeParams.length)) (by decide +kernel) hf hg
    (by rw [hname, hcount])

/-- The function and its copy are specialized, with the default for the parameter left out. -/
theorem specializes_instantiated_passing : passingEnv.program.CallsWithin (fun _ => True)
      (StaticType.NamedBy fun _ => ⟨0⟩) ∧
    passingEnv.program.DistinctSymbols (StaticType.NamedBy fun _ => ⟨0⟩) ∧
    ¬ passingEnv.program.LeadsTo ⟨1⟩ ⟨1⟩ ∧ ¬ passingEnv.program.LeadsTo ⟨1⟩ ⟨2⟩ ∧
    ∃ out out', Specializes passingEnv ⟨1⟩ [.int] 1 .dummy (.ok out) ∧
      Specializes passingEnv ⟨2⟩ [] 1 .dummy (.ok out') ∧ SameCode out out' := by
  have hbodies : ∀ decl ∈ passingEnv.program.functions.toList, decl.body.isSome = true := by
    decide +kernel
  have hspares : passingEnv.program.SparesSymbols := by
    intro decl hdecl hnone
    have hsome := hbodies decl (Array.mem_toList_iff.mpr hdecl)
    rw [hnone] at hsome
    cases hsome
  have hcalls : passingEnv.program.CallsWithin (fun _ => True) (StaticType.NamedBy fun _ => ⟨0⟩) :=
    ⟨namedBy_passing.typeArgs.mono fun _ hn s hs => ⟨trivial, hn s hs⟩,
      fun ht hs => ht.substitute hs, hspares⟩
  have hcallees : passingEnv.program.passesWithin (fun n => n.signature?.all fun s => s.func = ⟨0⟩) 6 =
      true := by
    decide +kernel
  have hcalled {f g : FuncId} (h : passingEnv.program.LeadsTo f g) : g = ⟨0⟩ := by
    cases h with
    | single h | tail _ h =>
      obtain ⟨decl, n, signature, hdecl, hn, hs, rfl⟩ := h
      have hnode := (hn.everywhere (Program.everywhere_of_passesWithin 6 hcallees) hdecl).here
      rw [hs] at hnode
      exact of_decide_eq_true hnode
  have hself : ¬ passingEnv.program.LeadsTo ⟨1⟩ ⟨1⟩ := fun h =>
    Nat.one_ne_zero (congrArg FuncId.index (hcalled h))
  have hcopy : ¬ passingEnv.program.LeadsTo ⟨1⟩ ⟨2⟩ := fun h =>
    Nat.succ_ne_zero 1 (congrArg FuncId.index (hcalled h))
  have hok : (passingEnv.specialized 8 ⟨1⟩ [.int] 1 .dummy).toBool = true := by
    decide +kernel
  obtain ⟨out, hout⟩ : ∃ out,
      passingEnv.specialized 8 ⟨1⟩ [.int] 1 .dummy = .ok out := by
    generalize passingEnv.specialized 8 ⟨1⟩ [.int] 1 .dummy = r at hok
    cases r with
    | ok out => exact ⟨out, rfl⟩
    | error e => cases hok
  have hthere := (specializes_iff (by simp)).mpr ⟨8, hout⟩
  have hfunction : passingEnv.program.function? ⟨1⟩ = some _ := rfl
  have hinstantiated : passingEnv.program.function? ⟨2⟩ =
    some (FunctionDecl.instantiated _ [.int]) := rfl
  have hint : ∀ t ∈ [StaticType.int], (t.NamedBy fun _ => ⟨0⟩) ∧ t.IsCollapsed := by
    intro t ht
    rw [List.mem_singleton.mp ht]
    exact ⟨trivial, trivial⟩
  obtain ⟨hiff, hsame, -⟩ := specializes_instantiated hcalls distinctSymbols_passing hfunction
    hinstantiated rfl rfl hint 1 .dummy
  obtain ⟨out', hhere⟩ := hiff.mp ⟨out, hthere⟩
  exact ⟨hcalls, distinctSymbols_passing, hself, hcopy, out, out', hthere, hhere,
    hsame out out' hthere hhere⟩

/-- A function that calls itself with another number of arguments:
`function f<T>(x: T, n: int = f<int>(1, 2) + "s"): int { f<int>(1); /r/; }`, with the copy at `int`. -/
def selfCallingEnv : Env :=
  let node (t : StaticType) (form : Form Node) : Node := .mk ⟨0⟩ .dummy t form
  let call (args : List String) : Node := node .int (.call (node .void (.identifier "f"))
    (args.map fun text => node .int (.numericLiteral text)) (some ⟨⟨0⟩, [.int]⟩))
  let f : FunctionDecl :=
    { name := "f"
      typeParams := ["T"]
      params := [{ name := "x", type := .param "T" },
        { name := "n", type := .int, optional := true
          default := some (node .int
            (.binary .add (call ["1", "2"]) (.mk ⟨0⟩ ⟨4, 5⟩ .void (.stringLiteral "s")))) }]
      ret := .int
      body := some (node .void (.block [node .void (.expressionStatement (call ["1"])),
        node .void (.expressionStatement (.mk ⟨0⟩ ⟨10, 11⟩ .void (.regExpLiteral "r")))])) }
  { program := { functions := #[f, f.instantiated [.int]] }
    config := {}
    registry := .standard }

/-- With a function that comes back to itself, the copy may fail with another error: generated within
the code of the copy, the default of the inner call finds no definition that it could refer to. -/
theorem specializes_selfCalling : ∃ decl, selfCallingEnv.program.function? ⟨0⟩ = some decl ∧
    decl.isGeneric = true ∧ decl.body.isSome = true ∧
    selfCallingEnv.program.function? ⟨1⟩ = some (decl.instantiated [.int]) ∧
    Specializes selfCallingEnv ⟨0⟩ [.int] 2 .dummy
      (.error (.reported ⟨.unsupportedSyntax "StringLiteral", ⟨4, 5⟩⟩)) ∧
    Specializes selfCallingEnv ⟨1⟩ [] 2 .dummy
      (.error (.reported ⟨.unsupportedSyntax "RegExpLiteral", ⟨10, 11⟩⟩)) := by
  refine ⟨_, rfl, rfl, rfl, rfl, specializes_of_failsWith 12 ?_ (by simp),
    specializes_of_failsWith 12 ?_ (by simp)⟩
  · decide +kernel
  · decide +kernel

end TypedLowering
