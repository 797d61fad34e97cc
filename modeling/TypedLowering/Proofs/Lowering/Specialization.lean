import Mathlib.Data.List.Forall2
import TypedLowering.Lowering.Specialization

/-!
What the resolution of a call says: how the parameters of a specialization come from those of the
declaration, and how many low-level parameters its function has.
-/
namespace TypedLowering
set_option autoImplicit false

section Except

variable {α β ε : Type}

theorem except_bind_ok {x : Except ε α} {f : α → Except ε β} {b : β} (h : x >>= f = .ok b) :
    ∃ a, x = .ok a ∧ f a = .ok b := by
  cases x with
  | error e => cases h
  | ok a => exact ⟨a, rfl, h⟩

/-- A successful run over a list gives one result for each element. -/
theorem except_map_ok {x : Except ε α} {f : α → β} {b : β}
    (h : (x.map f).toOption = some b) : ∃ a, x = .ok a ∧ f a = b := by
  cases x with
  | error e => cases h
  | ok a => exact ⟨a, rfl, Option.some.inj h⟩

theorem except_mapM_ok {f : α → Except ε β} {l : List α} {bs : List β} (h : l.mapM f = .ok bs) :
    List.Forall₂ (fun a b => f a = .ok b) l bs := by
  induction l generalizing bs with
  | nil =>
    cases h
    exact .nil
  | cons a l ih =>
    rw [List.mapM_cons] at h
    obtain ⟨b, hb, h⟩ := except_bind_ok h
    obtain ⟨bs', hbs, h⟩ := except_bind_ok h
    cases h
    exact .cons hb (ih hbs)

/-- A run over a list succeeds if it does at each element. -/
theorem except_mapM_exists {f : α → Except ε β} {l : List α} (h : ∀ a ∈ l, ∃ b, f a = .ok b) :
    ∃ bs, l.mapM f = .ok bs := by
  induction l with
  | nil => exact ⟨[], rfl⟩
  | cons a l ih =>
    obtain ⟨b, hb⟩ := h a List.mem_cons_self
    obtain ⟨bs, hbs⟩ := ih fun a ha => h a (List.mem_cons_of_mem _ ha)
    exact ⟨b :: bs, by rw [List.mapM_cons, hb, hbs]; rfl⟩

end Except

namespace Specialization

/-- How a specialization belongs to a declaration. -/
structure Resolves (p : Program) (func : FuncId) (decl : FunctionDecl) (typeArgs : List StaticType)
    (argCount : Nat) (span : Span) (s : Specialization) : Prop where
  func_eq : s.func = func
  name_eq : s.name = decl.name
  owner_eq : s.owner = decl.owner
  isInstance_eq : s.isInstance = decl.isInstance
  typeArgs_eq : s.typeArgs = typeArgs
  subst_eq : s.subst = .ofList (decl.typeParams.zip typeArgs)
  params : List.Forall₂ (fun (q : Param × Nat) r =>
    resolveParam p decl s.subst argCount span q.1 q.2 = .ok r) decl.params.zipIdx s.params
  ret : concreteType decl.name s.subst span decl.ret = .ok s.ret
  arity : decl.typeParams.length = typeArgs.length

variable {p : Program} {func : FuncId} {decl : FunctionDecl} {typeArgs : List StaticType}
  {argCount : Nat} {span : Span} {s : Specialization}

theorem resolve_ok (h : resolve p func decl typeArgs argCount span = .ok s) :
    s.Resolves p func decl typeArgs argCount span := by
  unfold resolve at h
  dsimp only at h
  split at h
  · cases h
  · next harity =>
    split at h
    · cases h
    · obtain ⟨params, hparams, h⟩ := except_bind_ok h
      obtain ⟨ret, hret, h⟩ := except_bind_ok h
      cases h
      exact {
        func_eq := rfl
        name_eq := rfl
        owner_eq := rfl
        isInstance_eq := rfl
        typeArgs_eq := rfl
        subst_eq := rfl
        params := except_mapM_ok hparams
        ret := hret
        arity := not_not.mp harity }

/-- A call passes no more arguments than there are parameters, unless a rest parameter takes them. -/
theorem resolve_arity (h : resolve p func decl typeArgs argCount span = .ok s) :
    argCount ≤ decl.params.length ∨ decl.params.any (·.variadic) = true := by
  unfold resolve at h
  dsimp only at h
  split at h
  · cases h
  · split at h
    · cases h
    · next hn =>
      simp only [Bool.and_eq_true, decide_eq_true_eq, not_and_or, Bool.not_eq_true,
        Bool.not_eq_false'] at hn
      exact hn.imp_left (by omega)

/-- What a parameter keeps of its declaration. -/
theorem resolveParam_ok {subst : Substitution} {q : Param} {i : Nat} {r : ResolvedParam}
    (h : resolveParam p decl subst argCount span q i = .ok r) :
    r.name = q.name ∧ r.default = q.default ∧ r.variadic = q.variadic ∧ r.span = q.span ∧
      r.supplied = (q.variadic || decide (i < argCount)) ∧
      concreteType decl.name subst span q.type = .ok r.type ∧
      (r.supplied = false → r.default.isSome = true) := by
  unfold resolveParam at h
  dsimp only at h
  split at h
  · cases h
  · next hs =>
    obtain ⟨type, ht, h⟩ := except_bind_ok h
    cases h
    refine ⟨rfl, rfl, rfl, rfl, rfl, ht, ?_⟩
    intro hn
    cases hd : q.default with
    | none =>
      have hn : (q.variadic || decide (i < argCount)) = false := hn
      simp [hn, hd] at hs
    | some d => rfl

theorem Resolves.exists_param (h : s.Resolves p func decl typeArgs argCount span) {r : ResolvedParam}
    (hr : r ∈ s.params) : ∃ q ∈ decl.params, ∃ i,
      resolveParam p decl s.subst argCount span q i = .ok r := by
  have hp := h.params
  generalize s.params = rs at hp hr
  generalize hl : decl.params.zipIdx = l at hp
  have hmem : ∀ q ∈ l, q.1 ∈ decl.params := by
    intro q hq
    rw [← hl] at hq
    exact (List.mem_zipIdx_iff_getElem?.mp hq) |> List.mem_of_getElem?
  clear hl
  induction hp with
  | nil => cases hr
  | cons hq _ ih =>
    rcases List.mem_cons.mp hr with rfl | hr
    · exact ⟨_, hmem _ List.mem_cons_self, _, hq⟩
    · exact ih hr fun q hq => hmem q (List.mem_cons_of_mem _ hq)

/-- A default of a parameter is one of the declaration. -/
theorem Resolves.exists_default (h : s.Resolves p func decl typeArgs argCount span)
    {r : ResolvedParam} (hr : r ∈ s.params) {d : Node} (hd : r.default = some d) :
    ∃ q ∈ decl.params, q.default = some d := by
  obtain ⟨q, hq, i, hi⟩ := h.exists_param hr
  exact ⟨q, hq, (resolveParam_ok hi).2.1.symm.trans hd⟩

theorem loweredParams_ok {params : List Ssa.Ty} (h : s.loweredParams = .ok params) :
    ∃ rest, params = (if s.isInstance then [Ssa.Ty.ptr] else []) ++ rest ∧
      List.Forall₂ (fun q t => q.type.lowered q.span = .ok t) s.suppliedParams rest := by
  unfold loweredParams at h
  obtain ⟨rest, hrest, h⟩ := except_bind_ok h
  cases h
  exact ⟨rest, rfl, except_mapM_ok hrest⟩

theorem length_loweredParams {params : List Ssa.Ty} (h : s.loweredParams = .ok params) :
    params.length = (if s.isInstance then 1 else 0) + s.suppliedParams.length := by
  obtain ⟨rest, rfl, hrest⟩ := loweredParams_ok h
  rw [List.length_append, hrest.length_eq]
  cases s.isInstance <;> rfl

theorem concreteType_ok {name : String} {subst : Substitution} {t u : StaticType}
    (h : concreteType name subst span t = .ok u) : u = t.substitute subst ∧ u.isGeneric = false := by
  unfold concreteType at h
  dsimp only at h
  split at h
  · cases h
  · next hg =>
    cases h
    exact ⟨rfl, by simpa using hg⟩

/-- Types without type parameters have a representation, so a resolved specialization has a
low-level signature. -/
theorem Resolves.exists_lowered (h : s.Resolves p func decl typeArgs argCount span) (at' : Span) :
    ∃ params ret, s.loweredParams = .ok params ∧ s.ret.lowered at' = .ok ret := by
  have lowered {t : StaticType} (ht : t.isGeneric = false) (span : Span) :
      ∃ ty, t.lowered span = .ok ty := by
    cases t with
    | param name => cases ht
    | _ => exact ⟨_, rfl⟩
  obtain ⟨rest, hrest⟩ := except_mapM_exists (l := s.suppliedParams)
    (f := fun q => q.type.lowered q.span) fun q hq => by
      obtain ⟨param, -, i, hi⟩ := h.exists_param (List.mem_filter.mp hq).1
      exact lowered (concreteType_ok (resolveParam_ok hi).2.2.2.2.2.1).2 _
  obtain ⟨ret, hret⟩ := lowered (concreteType_ok h.ret).2 at'
  refine ⟨(if s.isInstance then [.ptr] else []) ++ rest, ret, ?_, hret⟩
  unfold loweredParams
  rw [hrest]
  rfl

/-! ## What determines a specialization -/

end Specialization

/-- A parameter of a declaration at types for the type parameters. -/
def Param.resolved (q : Param) (subst : Substitution) (supplied : Bool) : ResolvedParam :=
  { name := q.name, type := q.type.substitute subst, optional := q.optional, variadic := q.variadic
    default := q.default, supplied, span := q.span }

namespace Specialization

variable {p : Program} {func : FuncId} {decl : FunctionDecl} {typeArgs : List StaticType}
  {argCount : Nat} {span : Span} {s s' : Specialization}

theorem Resolves.params_eq (h : s.Resolves p func decl typeArgs argCount span) :
    s.params = decl.params.zipIdx.map fun q =>
      q.1.resolved s.subst (q.1.variadic || decide (q.2 < argCount)) := by
  have hparams := h.params
  generalize s.params = params at hparams
  generalize decl.params.zipIdx = indexed at hparams ⊢
  induction hparams with
  | nil => rfl
  | @cons q r l rs hq _ ih =>
    rw [List.map_cons, ← ih]
    unfold resolveParam at hq
    dsimp only at hq
    split at hq
    · cases hq
    · obtain ⟨type, ht, hq⟩ := except_bind_ok hq
      cases hq
      rw [(concreteType_ok ht).1]
      rfl

/-- The parameters supplied, as those of the declaration. -/
theorem Resolves.length_suppliedParams (h : s.Resolves p func decl typeArgs argCount span) :
    s.suppliedParams.length = (decl.params.zipIdx.filter fun q =>
      q.1.variadic || decide (q.2 < argCount)).length := by
  rw [suppliedParams, h.params_eq, List.filter_map, List.length_map]
  rfl

/-- The types of the parameters supplied. -/
theorem Resolves.suppliedParams_types (h : s.Resolves p func decl typeArgs argCount span) :
    s.suppliedParams.map (·.type) = (decl.params.zipIdx.filter fun q =>
      q.1.variadic || decide (q.2 < argCount)).map fun q => q.1.type.substitute s.subst := by
  rw [suppliedParams, h.params_eq, List.filter_map, List.map_map]
  rfl

/-- More arguments supply more parameters. -/
theorem Resolves.suppliedParams_sublist {argCount' : Nat} {span' : Span}
    (h : s.Resolves p func decl typeArgs argCount span)
    (h' : s'.Resolves p func decl typeArgs argCount' span') (hle : argCount ≤ argCount') :
    (s.suppliedParams.map (·.type)).Sublist (s'.suppliedParams.map (·.type)) := by
  rw [h.suppliedParams_types, h'.suppliedParams_types, h.subst_eq, h'.subst_eq]
  refine (List.monotone_filter_right _ fun q hq => ?_).map _
  simp only [Bool.or_eq_true, decide_eq_true_eq] at hq ⊢
  exact hq.imp_right fun hlt => Nat.lt_of_lt_of_le hlt hle

/-- Two conditions of which one implies the other agree on a list where they hold equally often. -/
theorem agree_of_length_filter {α : Type} {l : List α} {P Q : α → Bool}
    (hPQ : ∀ a, P a = true → Q a = true) (hl : (l.filter P).length = (l.filter Q).length) {a : α}
    (ha : a ∈ l) : P a = Q a := by
  have hfilter : l.filter P = l.filter Q :=
    (List.monotone_filter_right l hPQ).eq_of_length hl
  rw [Bool.eq_iff_iff]
  refine ⟨hPQ a, fun hq => ?_⟩
  have hmem : a ∈ l.filter P := by
    rw [hfilter]
    exact List.mem_filter.mpr ⟨ha, hq⟩
  exact (List.mem_filter.mp hmem).2

/-- A function at the same types and with as many parameters supplied is the same specialization. -/
theorem Resolves.unique {argCount' : Nat} {span' : Span}
    (h : s.Resolves p func decl typeArgs argCount span)
    (h' : s'.Resolves p func decl typeArgs argCount' span')
    (hn : s.suppliedParams.length = s'.suppliedParams.length) : s = s' := by
  have hsubst : s.subst = s'.subst := h.subst_eq.trans h'.subst_eq.symm
  have hret : s.ret = s'.ret := by
    rw [(concreteType_ok h.ret).1, (concreteType_ok h'.ret).1, hsubst]
  have hparams : s.params = s'.params := by
    rw [h.length_suppliedParams, h'.length_suppliedParams] at hn
    rw [h.params_eq, h'.params_eq, hsubst]
    refine List.map_congr_left fun q hq => ?_
    congr 1
    rcases Nat.le_total argCount argCount' with hle | hle
    · refine agree_of_length_filter (fun q hs => ?_) hn hq
      simp only [Bool.or_eq_true, decide_eq_true_eq] at hs ⊢
      exact hs.imp_right fun hlt => Nat.lt_of_lt_of_le hlt hle
    · refine (agree_of_length_filter (fun q hs => ?_) hn.symm hq).symm
      simp only [Bool.or_eq_true, decide_eq_true_eq] at hs ⊢
      exact hs.imp_right fun hlt => Nat.lt_of_lt_of_le hlt hle
  obtain ⟨hfunc, hname, howner, hinst, htypes, -, -, -, -⟩ := h
  obtain ⟨hfunc', hname', howner', hinst', htypes', -, -, -, -⟩ := h'
  cases s
  cases s'
  simp_all

/-- What a specialization puts for a type parameter is one of its type arguments. -/
theorem Resolves.mem_typeArgs (h : s.Resolves p func decl typeArgs argCount span) {name : String}
    {t : StaticType} (ht : s.subst.get? name = some t) : t ∈ s.typeArgs := by
  rw [h.subst_eq] at ht
  rw [h.typeArgs_eq]
  exact (List.of_mem_zip (Dict.mem_of_get?_ofList ht)).2

/-- Specializations that are supplied with the same types have the same low-level parameters if they
both have a receiver or both have none. -/
theorem loweredParams_eq_iff (ht : s.suppliedParams.map (·.type) = s'.suppliedParams.map (·.type))
    {params params' : List Ssa.Ty} (h : s.loweredParams = .ok params)
    (h' : s'.loweredParams = .ok params') : params = params' ↔ s.isInstance = s'.isInstance := by
  have same {l l' : List ResolvedParam} {rest rest' : List Ssa.Ty}
      (hl : l.map (·.type) = l'.map (·.type))
      (hr : List.Forall₂ (fun q t => q.type.lowered q.span = .ok t) l rest)
      (hr' : List.Forall₂ (fun q t => q.type.lowered q.span = .ok t) l' rest') : rest = rest' := by
    induction hr generalizing l' rest' with
    | nil =>
      cases hr' with
      | nil => rfl
      | cons _ _ => cases hl
    | @cons q t _ _ hq _ ih =>
      cases hr' with
      | nil => cases hl
      | @cons q' t' _ _ hq' hrest' =>
        rw [List.map_cons, List.map_cons, List.cons.injEq] at hl
        obtain ⟨hty, hl⟩ := hl
        have htt : t = t' := by
          rw [hty] at hq
          cases hu : q'.type <;> rw [hu] at hq hq' <;> cases hq <;> cases hq' <;> rfl
        rw [htt, ih hl hrest']
  obtain ⟨rest, rfl, hrest⟩ := loweredParams_ok h
  obtain ⟨rest', rfl, hrest'⟩ := loweredParams_ok h'
  obtain rfl := same ht hrest hrest'
  cases s.isInstance <;> cases s'.isInstance <;> simp

end Specialization

end TypedLowering
