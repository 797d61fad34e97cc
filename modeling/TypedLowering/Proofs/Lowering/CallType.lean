import TypedLowering.Proofs.Generic.Copy
import TypedLowering.Proofs.Lowering.Bound
import TypedLowering.Proofs.Lowering.ClassLayout
import TypedLowering.Proofs.Source.Substitution
import TypedLowering.Source.Builder

/-!
The types of calls. A call gets its type when it is built, from the return type of the callee with the
type arguments of the call in it, which may be types of the caller's parameters. When it is generated,
what the caller's parameters stand for is put into the type arguments first, and these into the return
type then. Both come to the same wherever the callee can be specialized at all, also if caller and
callee have parameters of one name.

Main result: `Gen.call_types_agree`.
-/
namespace TypedLowering
set_option autoImplicit false
open Ssa

/-! ## Type arguments -/

namespace Dict

variable {κ α β : Type} [DecidableEq κ]

theorem mapValues_insert (g : α → β) (d : Dict κ α) (key : κ) (value : α) :
    (d.insert key value).mapValues g = (d.mapValues g).insert key (g value) := by
  simp [insert, mapValues, List.filter_map, Function.comp_def]

/-- Of pairs that are changed in their second part. -/
theorem ofList_map (g : α → β) (pairs : List (κ × α)) :
    ofList (pairs.map fun b => (b.1, g b.2)) = (ofList pairs).mapValues g := by
  have added (d : Dict κ α) : (pairs.map fun b => (b.1, g b.2)).foldl
      (fun d b => d.insert b.1 b.2) (d.mapValues g) =
        (pairs.foldl (fun d b => d.insert b.1 b.2) d).mapValues g := by
    induction pairs generalizing d with
    | nil => rfl
    | cons b pairs ih =>
      rw [List.map_cons, List.foldl_cons, List.foldl_cons, ← mapValues_insert]
      exact ih _
  exact added empty

end Dict

/-- Type arguments at what a caller's parameters stand for. -/
theorem FunctionDecl.get?_binding_map (decl : FunctionDecl) (typeArgs : List StaticType)
    (σ : Substitution) (name : String) :
    (decl.binding (typeArgs.map (·.substitute σ))).get? name =
      ((decl.binding typeArgs).get? name).map (·.substitute σ) := by
  have hzip : decl.typeParams.zip (typeArgs.map (·.substitute σ)) =
      (decl.typeParams.zip typeArgs).map fun b => (b.1, b.2.substitute σ) := List.zip_map_right
  unfold FunctionDecl.binding
  rw [hzip, Dict.ofList_map]
  exact Dict.get?_mapValues _ _ _

/-- A parameter that occurs in a type is bound by what makes the type closed. -/
theorem StaticType.bound_of_closed {t : StaticType} {s : Substitution}
    (h : (t.substitute s).isGeneric = false) {name : String} (hname : name ∈ t.params) :
    ∃ u, s.get? name = some u := by
  rw [isGeneric_eq_false_iff, params_substitute, List.flatMap_eq_nil_iff] at h
  cases hu : s.get? name with
  | some u => exact ⟨u, rfl⟩
  | none =>
    have hnil := h name hname
    rw [hu] at hnil
    cases hnil

/-- The return type that a call is built with, at what the caller's parameters stand for, is the return
type of the callee at the type arguments that result, if that is closed. -/
theorem Build.substitute_instantiatedRet {decl : FunctionDecl} {typeArgs : List StaticType}
    {σ : Substitution}
    (h : (decl.ret.substitute (decl.binding (typeArgs.map (·.substitute σ)))).isGeneric = false) :
    (instantiatedRet decl typeArgs).substitute σ =
      decl.ret.substitute (decl.binding (typeArgs.map (·.substitute σ))) := by
  unfold instantiatedRet
  split
  · refine StaticType.substitute_substitute_of_params fun name hname => ?_
    obtain ⟨u, hu⟩ := StaticType.bound_of_closed h hname
    rw [hu]
    rw [FunctionDecl.get?_binding_map] at hu
    obtain ⟨v, hv, rfl⟩ := Option.map_eq_some_iff.mp hu
    have hv : Dict.get? (.ofList (decl.typeParams.zip typeArgs)) name = some v := hv
    rw [hv]
    rfl
  · next hg =>
    -- without type parameters nothing is bound, so the return type has been closed from the start
    have hnone : decl.typeParams = [] := by simpa [FunctionDecl.isGeneric] using hg
    have hclosed : decl.ret.isGeneric = false := by
      rw [StaticType.isGeneric_eq_false_iff, List.eq_nil_iff_forall_not_mem]
      intro name hname
      obtain ⟨u, hu⟩ := StaticType.bound_of_closed h hname
      rw [FunctionDecl.binding, hnone] at hu
      cases hu
    exact StaticType.substitute_of_closed hclosed _ _

/-! ## Values -/

/-- A type that carries, if it is one of instances, the name that its class has in the program. -/
def StaticType.NamesClass (p : Program) : StaticType → Prop
  | .object cls name => ∃ decl, p.class? cls = some decl ∧ decl.name = name
  | _ => True

/-- The type of the instances is that of the class. -/
theorem ClassDescriptor.Describes.type_eq {p : Program} {m : Module} {cls : ClassId}
    {d : ClassDescriptor} (h : d.Describes p m cls) {decl : ClassDecl}
    (hdecl : p.class? cls = some decl) : d.type = .object cls decl.name := by
  obtain ⟨decl', fields, methods, hmembers, heq, -⟩ := h
  unfold Program.membersOf at hmembers
  rw [hdecl] at hmembers
  obtain ⟨fields', -, hmembers⟩ := except_bind_ok hmembers
  obtain ⟨methods', -, hmembers⟩ := except_bind_ok hmembers
  cases hmembers
  rw [heq]
  rfl

namespace Gen

variable {env : Env} {s t : GenState} {span : Span} {type : StaticType} {x : ValueId} {v : Value}

/-- The value of an operand at a type has this type. -/
theorem valueOf_type (h : valueOf x type span env s = .ok v t) (ht : t.unit.Described env.program)
    (hname : type.NamesClass env.program) : v.type = type := by
  cases type with
  | void | int | number | boolean | nullable _ | param _ =>
    cases h
    rfl
  | array u =>
    obtain ⟨o, s₁, hobject, hv⟩ := bind_ok h
    cases hv
    obtain ⟨l, s₂, hlayout, ho⟩ := bind_ok hobject
    obtain ⟨hl, -⟩ := ofExcept_ok hlayout
    cases ho
    exact (ArrayLayout.of_ok hl).2.symm
  | builtin b =>
    obtain ⟨o, s₁, hobject, hv⟩ := bind_ok h
    cases hv
    cases hobject
    rfl
  | object cls name =>
    obtain ⟨o, s₁, hobject, hv⟩ := bind_ok h
    cases hv
    obtain ⟨d, s₂, hd, ho⟩ := bind_ok hobject
    cases ho
    obtain ⟨decl, hdecl, rfl⟩ := hname
    exact (ht.descriptor (descriptor_enters hd)).type_eq hdecl

/-- The value of a call has the return type of the specialization that is called. -/
theorem emitCall_type {depth : Nat} {signature : Signature} {receiver : Option ValueId}
    {args : List Node} (hs : s.unit.Described env.program)
    (h : emitCall (Gen.generate depth) signature receiver args span env s = .ok v t) :
    ∃ decl sp, env.program.function? signature.func = some decl ∧
      Specialization.resolve env.program signature.func decl
        (signature.typeArgs.map (·.substitute s.frame.subst)) args.length span = .ok sp ∧
      (sp.ret.NamesClass env.program → v.type = sp.ret) := by
  have ht := ((emitCall_goesOn env depth signature receiver args span s hs).ok h).1.described
  obtain ⟨typeArgs, s₁, htypes, hlooking⟩ := bind_ok h
  obtain ⟨rfl, rfl⟩ := mapM_resolveType_ok htypes
  obtain ⟨decl, s₁, hlook, hreading⟩ := bind_ok hlooking
  obtain ⟨hdecl, rfl⟩ := functionDecl_ok hlook
  obtain ⟨program, s₁, hprogram, hresolving⟩ := bind_ok hreading
  cases hprogram
  obtain ⟨sp, s₁, hresolve, hcalling⟩ := bind_ok hresolving
  obtain ⟨hsp, rfl⟩ := ofExcept_ok hresolve
  obtain ⟨operands, s₂, -, hcalling⟩ := bind_ok hcalling
  obtain ⟨callee, s₃, -, hcalling⟩ := bind_ok hcalling
  obtain ⟨result, s₄, -, hvalue⟩ := bind_ok hcalling
  exact ⟨decl, sp, hdecl, hsp, valueOf_type hvalue ht⟩

/-- **Builder and generator agree on the types of calls.** A call is built for a callee whose return
type and type parameters stay as they are. Wherever the callee can be specialized at the type arguments
of the call, the type of the node is there the return type of the specialization; and this is the type
of the value that the call is generated to, as long as types of instances carry the names of their
classes, as the types do that declared classes come with. The units are those that compilation gets to
(`UnitState.Described.new`, `Compiler.compileEntry_described`, `generate_goesOn`). -/
theorem call_types_agree {env : Env} (built : Program) {func : FuncId} {decl decl' : FunctionDecl}
    (args : List Node) (typeArgs : List StaticType)
    (hdecl : env.program.function? func = some decl') (hret : decl'.ret = decl.ret)
    (hparams : decl'.typeParams = decl.typeParams) :
    let n := (Build.call func decl args typeArgs built).1
    (∀ {σ argCount span sp}, Specialization.resolve env.program func decl'
        (typeArgs.map (·.substitute σ)) argCount span = .ok sp →
      n.type.substitute σ = sp.ret ∧
        ∀ s : GenState, s.frame.subst = σ → nodeType n env s = .ok sp.ret s) ∧
    (∀ {s t depth receiver operands span v}, s.unit.Described env.program →
      (n.type.substitute s.frame.subst).NamesClass env.program →
      emitCall (Gen.generate depth) ⟨func, typeArgs⟩ receiver operands span env s = .ok v t →
      nodeType n env s = .ok v.type s ∧ ∃ sp, Specialization.resolve env.program func decl'
        (typeArgs.map (·.substitute s.frame.subst)) operands.length span = .ok sp ∧ v.type = sp.ret) ∧
    ∀ {s t depth v}, env.registry.get? .call = some .call → s.unit.Described env.program →
      (n.type.substitute s.frame.subst).NamesClass env.program →
      Gen.generate (depth + 1) n env s = .ok v t → nodeType n env s = .ok v.type s := by
  intro n
  have hresolved {σ : Substitution} {argCount : Nat} {span : Span} {sp : Specialization}
      (h : Specialization.resolve env.program func decl' (typeArgs.map (·.substitute σ)) argCount span =
        .ok sp) : n.type.substitute σ = sp.ret := by
    have hres := Specialization.resolve_ok h
    obtain ⟨heq, hclosed⟩ := Specialization.concreteType_ok hres.ret
    have hbinding : sp.subst = decl.binding (typeArgs.map (·.substitute σ)) := by
      rw [hres.subst_eq, hparams]
      rfl
    rw [hbinding, hret] at heq
    rw [heq] at hclosed ⊢
    exact Build.substitute_instantiatedRet hclosed
  have htype (s : GenState) : nodeType n env s = .ok (n.type.substitute s.frame.subst) s := rfl
  have hcall {s t : GenState} {depth : Nat} {receiver : Option ValueId} {operands : List Node}
      {span : Span} {v : Value} (hs : s.unit.Described env.program)
      (hname : (n.type.substitute s.frame.subst).NamesClass env.program)
      (h : emitCall (Gen.generate depth) ⟨func, typeArgs⟩ receiver operands span env s = .ok v t) :
      nodeType n env s = .ok v.type s ∧ ∃ sp, Specialization.resolve env.program func decl'
        (typeArgs.map (·.substitute s.frame.subst)) operands.length span = .ok sp ∧
          v.type = sp.ret := by
    obtain ⟨decl'', sp, hdecl'', hsp, hv⟩ := emitCall_type hs h
    cases hdecl.symm.trans hdecl''
    have hnode := hresolved hsp
    rw [hnode] at hname
    exact ⟨by rw [htype, hnode, hv hname], sp, hsp, hv hname⟩
  refine ⟨fun h => ⟨hresolved h, fun s hs => ?_⟩, hcall, fun {s t depth v} hregistry hs hname h => ?_⟩
  · rw [htype, hs, hresolved h]
  · have hrun : Gen.generate (depth + 1) n env s =
        emitCall (Gen.generate depth) ⟨func, typeArgs⟩ none args n.span env s := by
      rw [Gen.generate, run_read, show n.kind = .call from rfl, hregistry]
      rfl
    rw [hrun] at h
    exact (hcall hs hname h).1

/-- A program with a function `first` that has a type parameter `T` and yields nothing or a `T`. -/
def firstProgram : Program where
  functions := #[{ name := "first", typeParams := ["T"], ret := .nullable (.param "T") }]

/-- A state in the copy at `int` of a function whose type parameter is called `T`, too. -/
def inCopyAtInt : GenState :=
  { inFunctionBody with frame := { inFunctionBody.frame with subst := .ofList [("T", .int)] } }

/-- `first` at `T | undefined`, called from this copy: its result is an integer or nothing. -/
theorem call_types_agree_sharedName :
    let env : Env := ⟨firstProgram, {}, .standard⟩
    let decl : FunctionDecl := { name := "first", typeParams := ["T"], ret := .nullable (.param "T") }
    let typeArgs : List StaticType := [.nullable (.param "T")]
    let σ := inCopyAtInt.frame.subst
    let n := (Build.call ⟨0⟩ decl [] typeArgs firstProgram).1
    ∃ v t sp, Gen.generate 1 n env inCopyAtInt = .ok v t ∧
      Specialization.resolve firstProgram ⟨0⟩ decl (typeArgs.map (·.substitute σ)) 0 n.span = .ok sp ∧
      sp.ret = .nullable .int ∧ n.type.substitute σ = sp.ret ∧ v.type = sp.ret ∧
      nodeType n env inCopyAtInt = .ok v.type inCopyAtInt := by
  intro env decl typeArgs σ n
  have hdecl : env.program.function? ⟨0⟩ = some decl := rfl
  obtain ⟨hret, hcall, hnode⟩ := call_types_agree firstProgram [] typeArgs hdecl rfl rfl
  have hs : inCopyAtInt.unit.Described env.program :=
    (UnitState.Described.new env.program "m").addFunction _ rfl rfl
  obtain ⟨v, t, hrun⟩ : ∃ v t, Gen.generate 1 n env inCopyAtInt = .ok v t := ⟨_, _, rfl⟩
  have hcalled : emitCall (Gen.generate 0) ⟨⟨0⟩, typeArgs⟩ none [] n.span env inCopyAtInt = .ok v t :=
    hrun
  obtain ⟨-, sp, hsp, hv⟩ := hcall hs trivial hcalled
  have htype := (hret hsp).1
  exact ⟨v, t, sp, hrun, hsp, htype.symm, htype, hv, hnode rfl hs trivial hrun⟩

end Gen

end TypedLowering
