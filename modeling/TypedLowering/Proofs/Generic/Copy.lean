import Mathlib.Logic.Relation
import TypedLowering.Proofs.Coupling.Statement
import TypedLowering.Proofs.Lowering.Specialization
import TypedLowering.Proofs.Source.Pool

/-!
Copies of generic functions. A copy at type arguments is a function of its own without type
parameters; in all its types, those of the tree included, the arguments stand for the parameters. It is
resolved as the generic function is at the type arguments.
-/
namespace TypedLowering
set_option autoImplicit false

/-! ## Declarations -/

/-- A parameter at other types. -/
def Param.retyped (φ : StaticType → StaticType) (q : Param) : Param :=
  { q with type := φ q.type, default := q.default.map (Node.retyped φ) }

namespace FunctionDecl

/-- What type arguments put for the type parameters of a declaration. -/
def binding (decl : FunctionDecl) (typeArgs : List StaticType) : Substitution :=
  .ofList (decl.typeParams.zip typeArgs)

theorem mem_of_binding {decl : FunctionDecl} {typeArgs : List StaticType} {name : String}
    {t : StaticType} (h : (decl.binding typeArgs).get? name = some t) : t ∈ typeArgs :=
  (List.of_mem_zip (Dict.mem_of_get?_ofList h)).2

/-- The copy of a generic function at type arguments. -/
def instantiated (decl : FunctionDecl) (typeArgs : List StaticType) : FunctionDecl :=
  let φ := StaticType.substitute (decl.binding typeArgs)
  { decl with
    typeParams := []
    params := decl.params.map (Param.retyped φ)
    ret := φ decl.ret
    body := decl.body.map (Node.retyped φ) }

/-- The nodes in the tree of a function and in the defaults of its parameters. -/
inductive HasNode (decl : FunctionDecl) : Node → Prop
  | body {n} (hn : decl.body = some n) : HasNode decl n
  | default {q n} (hq : q ∈ decl.params) (hn : q.default = some n) : HasNode decl n
  | child {n c} (hn : HasNode decl n) (hc : c ∈ n.children) : HasNode decl c

end FunctionDecl

namespace Program

/-- A function whose code has a call of another one. -/
def Calls (p : Program) (f g : FuncId) : Prop :=
  ∃ decl n signature, p.function? f = some decl ∧ decl.HasNode n ∧ n.signature? = some signature ∧
    signature.func = g

/-- The code of a function leads to another one, by one call after the other. -/
abbrev LeadsTo (p : Program) : FuncId → FuncId → Prop := Relation.TransGen p.Calls

end Program

/-! ## Types -/

namespace StaticType

variable {subst : Substitution}

/-- What is put for type parameters is in normal form, and so is the whole. -/
theorem isCollapsed_substitute (h : ∀ {name t}, subst.get? name = some t → t.IsCollapsed)
    (t : StaticType) : (t.substitute subst).IsCollapsed := by
  induction t with
  | array t ih => exact ih
  | nullable t ih => exact isCollapsed_orUndefined ih
  | param name =>
    rw [substitute]
    cases hname : subst.get? name with
    | none => trivial
    | some u => exact h hname
  | _ => trivial

theorem substitute_substitute_empty (h : ∀ {name t}, subst.get? name = some t → t.IsCollapsed)
    (t : StaticType) : (t.substitute subst).substitute .empty = t.substitute subst :=
  substitute_of_unbound (isCollapsed_substitute h t) fun _ => rfl

end StaticType

/-! ## Resolution -/

namespace Specialization

/-- The specialization of a copy. -/
def instantiated (s : Specialization) (func : FuncId) : Specialization :=
  { s with
    func
    params := s.params.map (ResolvedParam.retyped (StaticType.substitute s.subst))
    typeArgs := []
    subst := .empty }

variable {p : Program} {decl : FunctionDecl} {typeArgs : List StaticType} {subst : Substitution}

theorem concreteType_substitute (h : ∀ {name t}, subst.get? name = some t → t.IsCollapsed)
    (name : String) (span : Span) (t : StaticType) :
    concreteType name .empty span (t.substitute subst) = concreteType name subst span t := by
  unfold concreteType
  rw [StaticType.substitute_substitute_empty h]

theorem resolveParam_retyped (h : ∀ {name t}, subst.get? name = some t → t.IsCollapsed)
    (argCount : Nat) (span : Span) (q : Param) (index : Nat) :
    resolveParam p (decl.instantiated typeArgs) .empty argCount span
        (q.retyped (StaticType.substitute subst)) index =
      (resolveParam p decl subst argCount span q index).map
        (ResolvedParam.retyped (StaticType.substitute subst)) := by
  have hnone : (q.default.map (Node.retyped (StaticType.substitute subst))).isNone =
      q.default.isNone := Option.isNone_map
  unfold resolveParam FunctionDecl.instantiated Param.retyped
  dsimp only
  rw [hnone, concreteType_substitute h]
  split
  · rfl
  · cases concreteType decl.name subst span q.type <;> rfl

theorem mapM_map_ok {α β γ ε : Type} {f : α → Except ε β} {g : α → Except ε γ} {k : β → γ}
    (h : ∀ a, g a = (f a).map k) (l : List α) : l.mapM g = (l.mapM f).map (List.map k) := by
  induction l with
  | nil => rfl
  | cons a l ih =>
    rw [List.mapM_cons, List.mapM_cons, h, ih]
    cases f a with
    | error e => rfl
    | ok b => cases l.mapM f <;> rfl

/-- What the resolution does if the number of type arguments is right. -/
theorem resolve_of_arity (hlength : decl.typeParams.length = typeArgs.length) (func : FuncId)
    (argCount : Nat) (span : Span) :
    resolve p func decl typeArgs argCount span =
      if decl.params.length < argCount && !decl.params.any (·.variadic) then
        .error ⟨.internal ("`" ++ decl.name ++ "` takes " ++ toString decl.params.length
          ++ " arguments, the call site passes " ++ toString argCount), span⟩
      else do
        let params ← decl.params.zipIdx.mapM fun (q, i) =>
          resolveParam p decl (decl.binding typeArgs) argCount span q i
        let ret ← concreteType decl.name (decl.binding typeArgs) span decl.ret
        return {
          func, name := decl.name, owner := decl.owner, params, ret, isInstance := decl.isInstance
          typeArgs, subst := decl.binding typeArgs } := by
  unfold resolve
  rw [if_neg (not_not.mpr hlength)]
  rfl

/-- A copy is resolved as the generic function is, with the same error if there is one. -/
theorem resolve_instantiated (hlength : decl.typeParams.length = typeArgs.length)
    (hcollapsed : ∀ {name t}, (decl.binding typeArgs).get? name = some t → t.IsCollapsed)
    (func func' : FuncId) (argCount : Nat) (span : Span) :
    resolve p func' (decl.instantiated typeArgs) [] argCount span =
      (resolve p func decl typeArgs argCount span).map (·.instantiated func') := by
  let φ := StaticType.substitute (decl.binding typeArgs)
  have hcount : (decl.instantiated typeArgs).params.length = decl.params.length := List.length_map _
  have hvariadic : (decl.instantiated typeArgs).params.any (·.variadic) =
      decl.params.any (·.variadic) := List.any_map
  have hparams : ((decl.instantiated typeArgs).params.zipIdx.mapM fun (q, i) =>
        resolveParam p (decl.instantiated typeArgs) ((decl.instantiated typeArgs).binding []) argCount
          span q i) =
      (decl.params.zipIdx.mapM fun (q, i) =>
        resolveParam p decl (decl.binding typeArgs) argCount span q i).map
          (List.map (ResolvedParam.retyped φ)) := by
    show ((decl.params.map (Param.retyped φ)).zipIdx.mapM _) = _
    rw [List.zipIdx_map, List.mapM_map]
    exact mapM_map_ok (fun (q, i) => resolveParam_retyped hcollapsed argCount span q i) _
  have hret : concreteType (decl.instantiated typeArgs).name
        ((decl.instantiated typeArgs).binding []) span (decl.instantiated typeArgs).ret =
      concreteType decl.name (decl.binding typeArgs) span decl.ret :=
    concreteType_substitute hcollapsed decl.name span decl.ret
  rw [resolve_of_arity hlength, resolve_of_arity rfl, hcount, hvariadic]
  split
  · rfl
  · rw [hparams, hret]
    cases decl.params.zipIdx.mapM fun (q, i) =>
      resolveParam p decl (decl.binding typeArgs) argCount span q i with
    | error e => rfl
    | ok params => cases concreteType decl.name (decl.binding typeArgs) span decl.ret <;> rfl

/-- A copy is called with the same low-level arguments. -/
theorem loweredParams_instantiated (s : Specialization) (func : FuncId) :
    (s.instantiated func).loweredParams = s.loweredParams := by
  have hsupplied : (s.instantiated func).suppliedParams =
      s.suppliedParams.map (ResolvedParam.retyped (StaticType.substitute s.subst)) := List.filter_map
  unfold loweredParams
  rw [hsupplied, List.mapM_map]
  rfl

end Specialization

end TypedLowering
