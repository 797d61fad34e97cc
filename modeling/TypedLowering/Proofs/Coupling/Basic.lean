import TypedLowering.Lowering.Call
import TypedLowering.Lowering.Literal
import TypedLowering.Lowering.MathObject
import TypedLowering.Proofs.Lowering.Generators
import TypedLowering.Proofs.Source.Retyping
import TypedLowering.Proofs.Ssa.Alike

/-!
Two runs of code generation side by side. Where a generator goes over a tree, it goes over the same
tree with other types in the same steps, and what the two have in hand at any time agrees up to the
numbers of structs and functions, and of values where the two emit different instructions. `Coupling`
lists what a relation between computations needs for that: the steps that touch the state have it,
and so have two sequences of steps that do.

A world is what is known of the two runs at some time; later worlds know more. Results are related in
the world in which they are there, so a relation may speak of the state after a step. A single run is
the case where the second one plays no role.

The options decide how array elements are reached and how array literals are built. `Steps` is what is
left without these; with equal options the rest follows.
-/
namespace TypedLowering
set_option autoImplicit false
open Ssa

/-! ## What the runs have in hand -/

/-- Descriptors of a class in two modules, whose structs are related. -/
def ClassDescriptor.Alike (S : StructId → StructId → Prop) (d d' : ClassDescriptor) : Prop :=
  ∃ layout, S d.layout layout ∧ d' = { d with layout }

/-- Descriptions of objects, where `T` is the storage that arrays may have. -/
inductive ObjectKind.Alike (S : StructId → StructId → Prop) (T : ElementStorage → Prop) :
    ObjectKind → ObjectKind → Prop
  | cls {d d' : ClassDescriptor} (h : d.Alike S d') : Alike S T (.cls d) (.cls d')
  | array {l : ArrayLayout} (hl : T l.storage) : Alike S T (.array l) (.array l)
  | builtin (b : BuiltinObject) : Alike S T (.builtin b) (.builtin b)

inductive ObjectRef.Alike (E : ValueId → ValueId → Prop) (S : StructId → StructId → Prop)
    (T : ElementStorage → Prop) : ObjectRef → ObjectRef → Prop
  | mk {k k' : ObjectKind} {a a' : Option ValueId} (h : k.Alike S T k') (ha : Option.Rel E a a')
    (type : StaticType) : Alike E S T ⟨k, a, type⟩ ⟨k', a', type⟩

inductive Place.Alike (E : ValueId → ValueId → Prop) (S : StructId → StructId → Prop)
    (T : ElementStorage → Prop) : Place → Place → Prop
  | slot {p p' : ValueId} (hp : E p p') (lowered : Ty) :
    Alike E S T (.slot p lowered) (.slot p' lowered)
  | field {o o' : ValueId} {i j : StructId} (ho : E o o') (h : S i j) (index : Nat) (lowered : Ty) :
    Alike E S T (.field o i index lowered) (.field o' j index lowered)
  | element {a a' i i' : ValueId} {l : ArrayLayout} (ha : E a a') (hi : E i i') (hl : T l.storage) :
    Alike E S T (.element a i l) (.element a' i' l)

inductive Assignable.Alike (E : ValueId → ValueId → Prop) (S : StructId → StructId → Prop)
    (T : ElementStorage → Prop) : Assignable → Assignable → Prop
  | mk {p p' : Place} (h : p.Alike E S T p') (type : StaticType) : Alike E S T ⟨p, type⟩ ⟨p', type⟩

/-- Values that differ in nothing but the numbers of operands and structs. -/
inductive Value.Alike (E : ValueId → ValueId → Prop) (S : StructId → StructId → Prop)
    (T : ElementStorage → Prop) : Value → Value → Prop
  | unit : Alike E S T .unit .unit
  | rvalue {x x' : ValueId} (hx : E x x') (type : StaticType) :
    Alike E S T (.rvalue x type) (.rvalue x' type)
  | assignable {a a' : Assignable} (h : a.Alike E S T a') :
    Alike E S T (.assignable a) (.assignable a')
  | object {o o' : ObjectRef} (h : o.Alike E S T o') : Alike E S T (.object o) (.object o')

inductive Binding.Alike (E : ValueId → ValueId → Prop) : Binding StaticType → Binding StaticType → Prop
  | constant {x x' : ValueId} (hx : E x x') (type : StaticType) :
    Alike E (.constant x type) (.constant x' type)
  | slot {p p' : ValueId} (hp : E p p') (lowered : Ty) (type : StaticType) :
    Alike E (.slot p lowered type) (.slot p' lowered type)

/-- Scopes with the same names in the same order. -/
def Scope.Alike (E : ValueId → ValueId → Prop) (s s' : Scope String StaticType) : Prop :=
  List.Forall₂ (fun b b' => b'.1 = b.1 ∧ b.2.Alike E b'.2) s.bindings s'.bindings

/-- Frames at corresponding places, where the types in the tree of the second are those of the first
under `φ`. -/
structure Frame.Alike (φ : StaticType → StaticType) (E : ValueId → ValueId → Prop)
    (S : StructId → StructId → Prop) (T : ElementStorage → Prop) (f f' : Frame) : Prop where
  block : f'.block = f.block
  scope : Scope.Alike E f.scope f'.scope
  returnType : f'.returnType = f.returnType
  loops : f'.loops = f.loops
  subst : ∀ t : StaticType, (φ t).substitute f'.subst = t.substitute f.subst
  this : Option.Rel (ObjectRef.Alike E S T) f.this f'.this

namespace Ssa

/-- The same instruction on related operands of its function. Arithmetic is not among these, as its
result has the type of an operand. -/
inductive Definition.Like (E : ValueId → ValueId → Prop) : Definition → Definition → Prop
  | const (c : Constant) : Like E (.const c) (.const c)
  | fneg {x x' : ValueId} (hx : E x x') : Like E (.fneg x) (.fneg x')
  | icmp (p : IntPredicate) {x x' y y' : ValueId} (hx : E x x') (hy : E y y') :
    Like E (.icmp p x y) (.icmp p x' y')
  | fcmp (p : FloatPredicate) {x x' y y' : ValueId} (hx : E x x') (hy : E y y') :
    Like E (.fcmp p x y) (.fcmp p x' y')
  | cast (op : CastOp) {x x' : ValueId} (hx : E x x') (t : Ty) : Like E (.cast op x t) (.cast op x' t)
  | load (t : Ty) {p p' : ValueId} (hp : E p p') : Like E (.load t p) (.load t p')
  | store {x x' p p' : ValueId} (hx : E x x') (hp : E p p') : Like E (.store x p) (.store x' p')
  | elementPtr {b b' i i' : ValueId} (hb : E b b') (t : Ty) (hi : E i i') :
    Like E (.elementPtr b t i) (.elementPtr b' t i')
  | phi (t : Ty) {x x' y y' : ValueId} (hx : E x x') (hy : E y y') (b c : BlockId) :
    Like E (.phi t [(x, b), (y, c)]) (.phi t [(x', b), (y', c)])

/-- The same end of a block, on related operands. -/
inductive Terminator.Like (E : ValueId → ValueId → Prop) : Terminator → Terminator → Prop
  | ret {x x' : Option ValueId} (hx : Option.Rel E x x') : Like E (.ret x) (.ret x')
  | br (b : BlockId) : Like E (.br b) (.br b)
  | condBr {x x' : ValueId} (hx : E x x') (b c : BlockId) : Like E (.condBr x b c) (.condBr x' b c)
  | unreachable : Like E .unreachable .unreachable

theorem eq_of_forall₂ {α : Type} {l l' : List α} (h : List.Forall₂ Eq l l') : l' = l := by
  rw [List.forall₂_eq_eq_eq] at h
  exact h.symm

theorem eq_of_rel {α : Type} {a a' : Option α} (h : Option.Rel Eq a a') : a' = a := by
  cases h with
  | none => rfl
  | some hx => rw [hx]

theorem Definition.Like.eq {d d' : Definition} (h : d.Like Eq d') : d' = d := by
  cases h <;> simp_all

theorem Definition.Like.isLocal {E : ValueId → ValueId → Prop} {d d' : Definition} (h : d.Like E d') :
    d.op.isLocal = true ∧ d'.op.isLocal = true := by
  cases h <;> exact ⟨rfl, rfl⟩

theorem Terminator.Like.eq {t t' : Terminator} (h : t.Like Eq t') : t' = t := by
  cases h with
  | ret hx => rw [eq_of_rel hx]
  | br b => rfl
  | condBr hx b c => rw [hx]
  | unreachable => rfl

end Ssa

section Alike

variable {E : ValueId → ValueId → Prop} {S S' : StructId → StructId → Prop}
  {T : ElementStorage → Prop}

theorem ClassDescriptor.Alike.mono (hS : ∀ i j, S i j → S' i j) {d d' : ClassDescriptor}
    (h : d.Alike S d') : d.Alike S' d' := by
  obtain ⟨l, hl, rfl⟩ := h
  exact ⟨l, hS _ _ hl, rfl⟩

theorem ObjectRef.Alike.mono (hS : ∀ i j, S i j → S' i j) {o o' : ObjectRef} (h : o.Alike E S T o') :
    o.Alike E S' T o' := by
  obtain ⟨hk, ha, t⟩ := h
  refine ⟨?_, ha, t⟩
  cases hk with
  | cls hd => exact .cls (hd.mono hS)
  | array hl => exact .array hl
  | builtin b => exact .builtin b

theorem Frame.Alike.mono (hS : ∀ i j, S i j → S' i j) {φ : StaticType → StaticType} {f f' : Frame}
    (h : f.Alike φ E S T f') : f.Alike φ E S' T f' := by
  refine { h with this := ?_ }
  have hthis := h.this
  generalize f.this = o at hthis ⊢
  generalize f'.this = o' at hthis ⊢
  cases hthis with
  | none => exact .none
  | some ho => exact .some (ho.mono hS)

theorem Assignable.Alike.mono (hS : ∀ i j, S i j → S' i j) {a a' : Assignable}
    (h : a.Alike E S T a') : a.Alike E S' T a' := by
  obtain ⟨hp, t⟩ := h
  refine ⟨?_, t⟩
  cases hp with
  | slot hp t => exact .slot hp t
  | field ho hij i t => exact .field ho (hS _ _ hij) i t
  | element ha hi hl => exact .element ha hi hl

theorem Value.Alike.mono (hS : ∀ i j, S i j → S' i j) {v v' : Value} (h : v.Alike E S T v') :
    v.Alike E S' T v' := by
  cases h with
  | unit => exact .unit
  | rvalue hx t => exact .rvalue hx t
  | assignable ha => exact .assignable (ha.mono hS)
  | object ho => exact .object (ho.mono hS)

theorem ObjectRef.Alike.type_eq {o o' : ObjectRef} (h : o.Alike E S T o') : o'.type = o.type := by
  cases h
  rfl

theorem ObjectRef.Alike.address {o o' : ObjectRef} (h : o.Alike E S T o') :
    Option.Rel E o.address o'.address := by
  cases h with
  | mk _ ha _ => exact ha

theorem ObjectRef.Alike.typeName_eq {o o' : ObjectRef} (h : o.Alike E S T o') :
    o'.typeName = o.typeName := by
  obtain ⟨hk, ha, t⟩ := h
  cases hk with
  | cls hd =>
    obtain ⟨l, -, rfl⟩ := hd
    rfl
  | array hl => rfl
  | builtin b => rfl

theorem Assignable.Alike.type_eq {a a' : Assignable} (h : a.Alike E S T a') : a'.type = a.type := by
  cases h
  rfl

theorem Value.Alike.type_eq {v v' : Value} (h : v.Alike E S T v') : v'.type = v.type := by
  cases h with
  | unit => rfl
  | rvalue x t => rfl
  | assignable ha => exact ha.type_eq
  | object ho => exact ho.type_eq

theorem ObjectRef.Alike.instanceAt {d d' : ClassDescriptor} (h : d.Alike S d') {x x' : ValueId}
    (hx : E x x') : (ObjectRef.instanceAt d x).Alike E S T (.instanceAt d' x') := by
  have hd := h
  obtain ⟨l, -, rfl⟩ := h
  exact ⟨.cls hd, .some hx, _⟩

theorem ObjectRef.Alike.ofClass {d d' : ClassDescriptor} (h : d.Alike S d') :
    (ObjectRef.ofClass d).Alike E S T (.ofClass d') := by
  have hd := h
  obtain ⟨l, -, rfl⟩ := h
  exact ⟨.cls hd, .none, _⟩

theorem ObjectRef.Alike.arrayAt {l : ArrayLayout} (hl : T l.storage) {x x' : ValueId} (hx : E x x') :
    (ObjectRef.arrayAt l x).Alike E S T (.arrayAt l x') := ⟨.array hl, .some hx, _⟩

theorem Scope.Alike.get? {s s' : Scope String StaticType} (h : Scope.Alike E s s') (name : String) :
    Option.Rel (Binding.Alike E) (s.get? name) (s'.get? name) := by
  unfold Scope.Alike at h
  unfold Dict.get?
  generalize s.bindings = l, s'.bindings = l' at h
  induction h with
  | nil => exact .none
  | @cons b b' l l' hb _ ih =>
    rw [List.find?_cons, List.find?_cons, hb.1]
    cases decide (b.1 = name) with
    | true => exact .some hb.2
    | false => exact ih

theorem Scope.Alike.insert {s s' : Scope String StaticType} (h : Scope.Alike E s s') (name : String)
    {b b' : Binding StaticType} (hb : b.Alike E b') :
    Scope.Alike E (Dict.insert s name b) (Dict.insert s' name b') := by
  refine .cons ⟨rfl, hb⟩ ?_
  unfold Scope.Alike at h
  generalize s.bindings = l, s'.bindings = l' at h
  induction h with
  | nil => exact .nil
  | @cons c c' l l' hc _ ih =>
    rw [List.filter_cons, List.filter_cons, hc.1]
    split
    · exact .cons hc ih
    · exact ih

end Alike

/-! ## What the runs read -/

/-- Environments that differ in the options and the entry points at most. -/
structure Env.Similar (env env' : Env) : Prop where
  registry : env'.registry = env.registry
  program : ∃ funcs, env'.program = { env.program with entryPoints := funcs }

namespace Env.Similar

variable {env env' : Env} (h : env.Similar env')

theorem refl (env : Env) : env.Similar env := ⟨rfl, _, rfl⟩

include h

theorem function?_eq (id : FuncId) : env'.program.function? id = env.program.function? id := by
  obtain ⟨-, funcs, hp⟩ := h
  rw [hp]
  rfl

theorem symbols_eq : env'.program.symbols = env.program.symbols := by
  obtain ⟨-, funcs, hp⟩ := h
  rw [hp]

theorem resolve_eq (func : FuncId) (decl : FunctionDecl) (typeArgs : List StaticType)
    (argCount : Nat) (span : Span) :
    Specialization.resolve env'.program func decl typeArgs argCount span =
      Specialization.resolve env.program func decl typeArgs argCount span := by
  obtain ⟨-, funcs, hp⟩ := h
  rw [hp]
  rfl

theorem symbol_eq (s : Specialization) : s.symbol env'.program = s.symbol env.program := by
  obtain ⟨-, funcs, hp⟩ := h
  rw [hp]
  rfl

end Env.Similar

/-! ## Worlds -/

/-- What a world tells: blocks that the functions under construction have, declarations and structs
that correspond in the two modules. Which operands correspond is the same in all worlds. -/
structure Outlook (W : Type) [Preorder W] where
  value : ValueId → ValueId → Prop
  /-- Promises about functions and calls that correspond. -/
  attributes : Attributes → Attributes → Prop
  /-- The storage that arrays may have. -/
  storage : ElementStorage → Prop
  block : W → BlockId → Prop
  declared : W → FunctionId → FunctionId → Prop
  struct : W → StructId → StructId → Prop
  attributes_none : attributes .none .none
  storage_of : ∀ {t : StaticType} {span : Span} {l : ArrayLayout}, ArrayLayout.of t span = .ok l →
    storage l.storage
  block_mono : ∀ {w x b}, w ≤ x → block w b → block x b
  declared_mono : ∀ {w x i j}, w ≤ x → declared w i j → declared x i j
  struct_mono : ∀ {w x i j}, w ≤ x → struct w i j → struct x i j

namespace Outlook

variable {W : Type} [Preorder W] (K : Outlook W)

/-- Results of computations that are operands. -/
abbrev operand (_ : W) : ValueId → ValueId → Prop := K.value

abbrev operands (_ : W) : List ValueId → List ValueId → Prop := List.Forall₂ K.value

abbrev object (w : W) : ObjectRef → ObjectRef → Prop := ObjectRef.Alike K.value (K.struct w) K.storage

abbrev assignable (w : W) : Assignable → Assignable → Prop := Assignable.Alike K.value (K.struct w) K.storage

abbrev frame (φ : StaticType → StaticType) (w : W) : Frame → Frame → Prop :=
  Frame.Alike φ K.value (K.struct w) K.storage

abbrev result (w : W) : Value → Value → Prop := Value.Alike K.value (K.struct w) K.storage

variable {w x : W}

theorem result_mono (hx : w ≤ x) {v v' : Value} (h : K.result w v v') : K.result x v v' :=
  h.mono fun _ _ => K.struct_mono hx

theorem assignable_mono (hx : w ≤ x) {a a' : Assignable} (h : K.assignable w a a') :
    K.assignable x a a' :=
  h.mono fun _ _ => K.struct_mono hx

theorem object_mono (hx : w ≤ x) {o o' : ObjectRef} (h : K.object w o o') : K.object x o o' :=
  h.mono fun _ _ => K.struct_mono hx

end Outlook

/-- Arrays that the function is made for have storage with `T`. -/
def SupportFunction.Stores (T : ElementStorage → Prop) : SupportFunction → Prop
  | .arrayNew s | .arrayFromBuffer s | .arrayWithLength s | .arrayPush s | .arrayPop s | .arrayGet s
  | .arraySet s => T s
  | .objectAlloc | .box _ | .mathRandom => True

namespace MathMember

/-- The function that a member is compiled to, if it is one function. -/
def symbol? : MathMember → Option String
  | .intrinsic symbol _ | .library symbol _ | .fold symbol _ => some symbol
  | .round => some "llvm.floor.f64"
  | .constant _ | .random => none

/-- All functions that members of `Math` and the power operator are compiled to. -/
def symbols : List String := "llvm.pow.f64" :: table.filterMap fun m => m.2.symbol?

theorem mem_symbols {name symbol : String} {m : MathMember} (h : named? name = some m)
    (hs : m.symbol? = some symbol) : symbol ∈ symbols := by
  obtain ⟨before, after, heq, -⟩ := List.lookup_eq_some_iff.mp h
  refine List.mem_cons_of_mem _ (List.mem_filterMap.mpr ⟨(name, m), ?_, hs⟩)
  rw [heq]
  simp

end MathMember

namespace Gen

/-- The array of a literal: a copy of constant data, or built from its elements. -/
def arrayOfLiteral (generate : Generate) (l : ArrayLayout) (elements : List Node) (span : Span) :
    Gen ValueId := do
  match ← constantData l elements with
  | some data =>
    if (← config).literalBufferThreshold < data.length then arrayOfConstants l data span
    else arrayOfNodes generate l elements span
  | none => arrayOfNodes generate l elements span

variable {W : Type} [Preorder W] {K : Outlook W} {env env' : Env} {φ : StaticType → StaticType}
  {Calls : Signature → Prop} {Arg : StaticType → Prop} {generate generate' : Generate}
  {R : (α : Type) → W → (W → α → α → Prop) → Gen α → Gen α → Prop}

/-- A relation between computations that two runs over the same tree have, the types in the second
tree being those of the first under `φ`, as long as the options play no role. -/
structure Steps (K : Outlook W) (env env' : Env) (φ : StaticType → StaticType)
    (R : (α : Type) → W → (W → α → α → Prop) → Gen α → Gen α → Prop) : Prop where
  similar : env.Similar env'
  hints : K.attributes env.config.intrinsicHints env'.config.intrinsicHints
  pure : ∀ {α : Type} {w : W} {V : W → α → α → Prop} {a a' : α}, V w a a' →
    R α w V (pure a) (pure a')
  bind : ∀ {α β : Type} {w : W} {V : W → α → α → Prop} {U : W → β → β → Prop} {m m' : Gen α}
    {f f' : α → Gen β}, R α w V m m' →
    (∀ x a a', w ≤ x → V x a a' → R β x U (f a) (f' a')) → R β w U (m >>= f) (m' >>= f')
  throw : ∀ {α : Type} {w : W} {V : W → α → α → Prop} {e : Failure}, e ≠ .misplaced →
    e ≠ .exhausted → R α w V (throw e) (throw e)
  reads : ∀ {w : W}, R Env w (fun _ e e' => e = env ∧ e' = env') read read
  frame : ∀ {w : W}, R Frame w (K.frame φ) frame frame
  modifyFrame : ∀ {w : W} {g g' : Frame → Frame},
    (∀ f f' : Frame, K.frame φ w f f' → K.frame φ w (g f) (g' f')) →
    (∀ f, (g f).function = f.function ∧ (g f).block = f.block ∧ (g f).subst = f.subst) →
    (∀ f, (g' f).function = f.function ∧ (g' f).block = f.block ∧ (g' f).subst = f.subst) →
    R Unit w (fun _ => Eq) (modifyFrame g) (modifyFrame g')
  isTerminated : ∀ {w : W}, R Bool w (fun _ => Eq) isTerminated isTerminated
  emit : ∀ {w : W} {d d' : Definition}, d.Like K.value d' →
    R ValueId w K.operand (emit d) (emit d')
  emitBinary : ∀ {w : W} (op : BinOp) {l l' r r' : ValueId}, K.value l l' → K.value r r' →
    R ValueId w K.operand (emitBinary op l r) (emitBinary op l' r')
  emitSelect : ∀ {w : W} {c c' a a' b b' : ValueId}, K.value c c' → K.value a a' → K.value b b' →
    R ValueId w K.operand (emitSelect c a b) (emitSelect c' a' b')
  fieldPtr : ∀ {w : W} {base base' : ValueId} {i j : StructId} (index : Nat), K.value base base' →
    K.struct w i j →
    R ValueId w K.operand (Gen.emit (.fieldPtr base i index)) (Gen.emit (.fieldPtr base' j index))
  emitSlot : ∀ {w : W} (t : Ty), R ValueId w K.operand (emitSlot t) (emitSlot t)
  terminate : ∀ {w : W} {t t' : Terminator}, t.Like K.value t' →
    R Unit w (fun _ => Eq) (terminate t) (terminate t')
  appendBlock : ∀ {w : W} (word : String),
    R BlockId w (fun x b b' => b = b' ∧ K.block x b) (appendBlock word) (appendBlock word)
  positionAt : ∀ {w : W} {b : BlockId}, K.block w b →
    R Unit w (fun _ => Eq) (positionAt b) (positionAt b)
  /-- Parameters have the same numbers in both functions. -/
  param : ∀ index, K.value (Function.param index) (Function.param index)
  arrayHeader : ∀ {w : W}, R StructId w K.struct arrayHeader arrayHeader
  descriptor : ∀ {w : W} (cls : ClassId),
    R ClassDescriptor w (fun x d d' => d.Alike (K.struct x) d') (descriptor cls) (descriptor cls)
  callSupport : ∀ {w : W} (f : SupportFunction) {args args' : List ValueId} (span : Span),
    f.Stores K.storage → List.Forall₂ K.value args args' →
    R ValueId w K.operand (callSupport f args span) (callSupport f args' span)
  declareMath : ∀ {w : W} {symbol : String} (arity : Nat) {attrs attrs' : Attributes} (span : Span),
    symbol ∈ MathMember.symbols → K.attributes attrs attrs' →
    R FunctionId w K.declared (declareMath symbol arity attrs span)
      (declareMath symbol arity attrs' span)
  callFunction : ∀ {w : W} {i j : FunctionId} {args args' : List ValueId} {attrs attrs' : Attributes},
    K.declared w i j → List.Forall₂ K.value args args' → K.attributes attrs attrs' →
    R ValueId w K.operand (callFunction i args attrs) (callFunction j args' attrs')

/-- What two runs need to go over a tree together. `Calls` are the signatures in the tree, `Arg` the
types that they pass for type parameters. -/
structure Coupling (K : Outlook W) (env env' : Env) (φ : StaticType → StaticType)
    (Calls : Signature → Prop) (Arg : StaticType → Prop) (generate generate' : Generate)
    (R : (α : Type) → W → (W → α → α → Prop) → Gen α → Gen α → Prop) : Prop
    extends Steps K env env' φ R where
  loadElement : ∀ {w : W} (l : ArrayLayout) {a a' i i' : ValueId} (span : Span),
    K.storage l.storage → K.value a a' → K.value i i' → R ValueId w K.operand (loadElement l a i span) (loadElement l a' i' span)
  storeElement : ∀ {w : W} (l : ArrayLayout) {a a' i i' x x' : ValueId} (span : Span),
    K.storage l.storage → K.value a a' → K.value i i' → K.value x x' →
    R Unit w (fun _ => Eq) (storeElement l a i x span) (storeElement l a' i' x' span)
  /-- The array of a literal whose elements can be generated. -/
  arrayOfLiteral : ∀ {w : W} {t : StaticType} {l : ArrayLayout} (elements : List Node) (span : Span),
    ArrayLayout.of t span = .ok l →
    (∀ x, w ≤ x → R ValueId x K.operand (arrayOfNodes generate l elements span)
      (arrayOfNodes generate' l (elements.map (Node.retyped φ)) span)) →
    R ValueId w K.operand (arrayOfLiteral generate l elements span)
      (arrayOfLiteral generate' l (elements.map (Node.retyped φ)) span)
  resolveArg : ∀ {w : W} {signature : Signature} {t : StaticType}, Calls signature →
    t ∈ signature.typeArgs →
    R StaticType w (fun _ u u' => u = u' ∧ Arg u) (resolveType t) (resolveType (φ t))
  /-- A request for a specialization and the call that it is made for. -/
  request : ∀ {w : W} {signature : Signature} {s : Specialization} {decl : FunctionDecl}
    {typeArgs : List StaticType} {argCount : Nat} (span : Span) {args args' : List ValueId},
    Calls signature → (∀ t ∈ typeArgs, Arg t) →
    env.program.function? signature.func = some decl →
    Specialization.resolve env.program signature.func decl typeArgs argCount span = .ok s →
    List.Forall₂ K.value args args' →
    R ValueId w K.operand
      (do Gen.callFunction (← specialize generate s span) args .none)
      (do Gen.callFunction (← specialize generate' s span) args' .none)

namespace Steps

variable {α β : Type} {w : W} {V : W → α → α → Prop} {U : W → β → β → Prop}

/-! ## Sequences -/

section Sequences

variable (h : Steps K env env' φ R) {m m' : Gen α} {f f' : α → Gen β}

include h

/-- Results that are equal. -/
theorem seq (hm : R α w (fun _ => Eq) m m') (hf : ∀ x a, w ≤ x → R β x U (f a) (f' a)) :
    R β w U (m >>= f) (m' >>= f') := by
  refine h.bind hm ?_
  rintro x a _ hx rfl
  exact hf x a hx

theorem map {g g' : α → β} (hm : R α w V m m') (hg : ∀ x a a', w ≤ x → V x a a' → U x (g a) (g' a')) :
    R β w U (do return g (← m)) (do return g' (← m')) :=
  h.bind hm fun x a a' hx ha => h.pure (hg x a a' hx ha)

theorem mono {V' : W → α → α → Prop} (hm : R α w V m m')
    (hV : ∀ x a a', w ≤ x → V x a a' → V' x a a') : R α w V' m m' := by
  rw [← bind_pure m, ← bind_pure m']
  exact h.map hm hV

/-- Lists of related results. -/
theorem mapM {γ : Type} {E : α → α → Prop} {f f' : γ → Gen α} : ∀ {l : List γ} {w : W},
    (∀ a ∈ l, ∀ x, R α x (fun _ => E) (f a) (f' a)) →
    R (List α) w (fun _ => List.Forall₂ E) (l.mapM f) (l.mapM f')
  | [], _, _ => h.pure .nil
  | a :: l, w, hf => by
    rw [List.mapM_cons, List.mapM_cons]
    refine h.bind (hf a List.mem_cons_self w) fun x b b' _ hb => ?_
    refine h.bind (mapM fun a' ha' => hf a' (List.mem_cons_of_mem _ ha')) fun _ _ _ _ hl => ?_
    exact h.pure (.cons hb hl)

theorem foldlM {γ : Type} {E : α → α → Prop} {F : γ → γ → Prop} {f f' : α → γ → Gen α}
    (hf : ∀ x b b' a a', w ≤ x → E b b' → F a a' → R α x (fun _ => E) (f b a) (f' b' a'))
    {l l' : List γ} (hl : List.Forall₂ F l l') {b b' : α} (hb : E b b') :
    R α w (fun _ => E) (l.foldlM f b) (l'.foldlM f' b') := by
  have later : ∀ {b b' : α} {x : W}, w ≤ x → E b b' →
      R α x (fun _ => E) (l.foldlM f b) (l'.foldlM f' b') := by
    induction hl with
    | nil => exact fun _ hb => h.pure hb
    | cons ha _ ih =>
      intro b b' x hx hb
      rw [List.foldlM_cons, List.foldlM_cons]
      exact h.bind (hf x _ _ _ _ hx hb ha) fun y c c' hy hc => ih (hx.trans hy) hc
  exact later le_rfl hb

end Sequences

variable (h : Steps K env env' φ R)

include h

/-! ## Refusals and look-ups -/

theorem fail {cause : Cause} {span : Span} :
    R α w V (Gen.fail cause span) (Gen.fail cause span) :=
  h.throw (by simp) (by simp)

theorem unsupported {op type : String} {span : Span} :
    R α w V (Gen.unsupported op type span) (Gen.unsupported op type span) := h.fail

theorem internal {message : String} {span : Span} :
    R α w V (Gen.internal message span) (Gen.internal message span) := h.fail

theorem wrongForm {kind : SyntaxKind} {n : Node} :
    R α w V (Gen.wrongForm kind n) (Gen.wrongForm kind (n.retyped φ)) := by
  unfold Gen.wrongForm
  rw [Node.kind_retyped, Node.span_retyped]
  exact h.internal

theorem ofExcept (x : Except LoweringError α) :
    R α w (fun _ a a' => a = a' ∧ x = .ok a) (Gen.ofExcept x) (Gen.ofExcept x) := by
  cases x with
  | ok a => exact h.pure ⟨rfl, rfl⟩
  | error e => exact h.throw (by simp) (by simp)

theorem config : R Config w (fun _ c c' => c = env.config ∧ c' = env'.config) Gen.config Gen.config :=
  h.map h.reads fun _ _ _ _ he => ⟨by rw [he.1], by rw [he.2]⟩

theorem program : R Program w (fun _ p p' => p = env.program ∧ p' = env'.program) Gen.program
    Gen.program :=
  h.map h.reads fun _ _ _ _ he => ⟨by rw [he.1], by rw [he.2]⟩

theorem functionDecl (id : FuncId) :
    R FunctionDecl w (fun _ d d' => d = d' ∧ env.program.function? id = some d)
      (Gen.functionDecl id) (Gen.functionDecl id) := by
  refine h.bind h.program ?_
  rintro x _ _ - ⟨rfl, rfl⟩
  rw [h.similar.function?_eq]
  split
  · next d hd => exact h.pure ⟨rfl, hd⟩
  · exact h.throw (by simp) (by simp)

theorem currentBlock : R BlockId w (fun _ => Eq) Gen.currentBlock Gen.currentBlock :=
  h.map h.frame fun _ _ _ _ hf => hf.block.symm

theorem resolveType (t : StaticType) :
    R StaticType w (fun _ => Eq) (Gen.resolveType t) (Gen.resolveType (φ t)) :=
  h.map h.frame fun _ _ _ _ hf => (hf.subst t).symm

theorem nodeType (n : Node) :
    R StaticType w (fun _ => Eq) (Gen.nodeType n) (Gen.nodeType (n.retyped φ)) := by
  unfold Gen.nodeType
  rw [Node.type_retyped]
  exact h.resolveType n.type

theorem layout (t : StaticType) (span : Span) :
    R Ty w (fun _ => Eq) (Gen.layout t span) (Gen.layout t span) :=
  h.mono (h.ofExcept _) fun _ _ _ _ ha => ha.1

/-! ## Instructions -/

theorem emitConst (c : Constant) : R ValueId w K.operand (Gen.emitConst c) (Gen.emitConst c) :=
  h.emit (.const c)

theorem emitStore {v v' p p' : ValueId} (hv : K.value v v') (hp : K.value p p') :
    R Unit w (fun _ => Eq) (Gen.emitStore v p) (Gen.emitStore v' p') :=
  h.bind (h.emit (.store hv hp)) fun _ _ _ _ _ => h.pure rfl

theorem branchIfOpen (b : BlockId) :
    R Unit w (fun _ => Eq) (Gen.branchIfOpen b) (Gen.branchIfOpen b) := by
  refine h.seq h.isTerminated fun _ ended _ => ?_
  split
  · exact h.terminate (.br b)
  · exact h.pure rfl

/-- A change of the names in scope. -/
theorem modifyScope {g g' : Scope String StaticType → Scope String StaticType}
    (hg : ∀ s s', Scope.Alike K.value s s' → Scope.Alike K.value (g s) (g' s')) :
    R Unit w (fun _ => Eq) (Gen.modifyFrame fun f => { f with scope := g f.scope })
      (Gen.modifyFrame fun f => { f with scope := g' f.scope }) :=
  h.modifyFrame (fun _ _ hf => { hf with scope := hg _ _ hf.scope }) (fun _ => ⟨rfl, rfl, rfl⟩)
    fun _ => ⟨rfl, rfl, rfl⟩

theorem setScope {scope scope' : Scope String StaticType} (hs : Scope.Alike K.value scope scope') :
    R Unit w (fun _ => Eq) (Gen.setScope scope) (Gen.setScope scope') :=
  h.modifyScope fun _ _ _ => hs

theorem bindLocal (name : String) {x x' : ValueId} (hx : K.value x x') (t : StaticType)
    (span : Span) :
    R Unit w (fun _ => Eq) (Gen.bindLocal name x t span) (Gen.bindLocal name x' t span) := by
  refine h.seq (h.layout _ _) fun _ lowered _ => h.bind (h.emitSlot _) fun _ slot slot' _ hslot => ?_
  refine h.seq (h.emitStore hx hslot) fun _ _ _ => ?_
  exact h.modifyScope fun _ _ hs => hs.insert name (.slot hslot lowered t)

/-! ## Places -/

theorem arrayLength {array array' : ValueId} (ha : K.value array array') :
    R ValueId w K.operand (Gen.arrayLength array) (Gen.arrayLength array') := by
  refine h.bind h.arrayHeader fun x i j _ hij => ?_
  exact h.bind (h.fieldPtr _ ha hij) fun _ _ _ _ hp => h.emit (.load _ hp)

theorem elementAddress (l : ArrayLayout) {array array' index index' : ValueId}
    (ha : K.value array array') (hi : K.value index index') :
    R ValueId w K.operand (Gen.elementAddress l array index)
      (Gen.elementAddress l array' index') := by
  refine h.bind h.arrayHeader fun x i j _ hij => ?_
  refine h.bind (h.fieldPtr _ ha hij) fun _ _ _ _ hp => ?_
  exact h.bind (h.emit (.load _ hp)) fun _ _ _ _ hd => h.emit (.elementPtr hd _ hi)

/-! ## Equal options -/

section Options

variable (hconfig : env'.config = env.config)

include hconfig

theorem loadElement (l : ArrayLayout) {array array' index index' : ValueId} (span : Span)
    (hl : K.storage l.storage) (ha : K.value array array') (hi : K.value index index') :
    R ValueId w K.operand (Gen.loadElement l array index span)
      (Gen.loadElement l array' index' span) := by
  refine h.bind h.config ?_
  rintro x _ _ - ⟨rfl, rfl⟩
  rw [hconfig]
  split
  · exact h.callSupport _ _ hl (.cons ha (.cons hi .nil))
  · exact h.bind (h.elementAddress l ha hi) fun _ _ _ _ hp => h.emit (.load _ hp)

theorem storeElement (l : ArrayLayout) {array array' index index' value value' : ValueId}
    (span : Span) (hl : K.storage l.storage) (ha : K.value array array')
    (hi : K.value index index') (hv : K.value value value') :
    R Unit w (fun _ => Eq) (Gen.storeElement l array index value span)
      (Gen.storeElement l array' index' value' span) := by
  refine h.bind h.config ?_
  rintro x _ _ - ⟨rfl, rfl⟩
  rw [hconfig]
  split
  · exact h.bind (h.callSupport _ _ hl (.cons ha (.cons hi (.cons hv .nil)))) fun _ _ _ _ _ => h.pure rfl
  · exact h.bind (h.elementAddress l ha hi) fun _ _ _ _ hp => h.emitStore hv hp

omit h hconfig in
/-- The constants of array elements depend on types only as the frame resolves them. -/
theorem constantElements_retyped {s s' : Substitution}
    (hs : ∀ t : StaticType, (φ t).substitute s' = t.substitute s) (l : ArrayLayout)
    (elements : List Node) : constantElements s' l (elements.map (Node.retyped φ))
      = constantElements s l elements := by
  induction elements with
  | nil => rfl
  | cons n rest ih =>
    have element : constantElement s' l (n.retyped φ) = constantElement s l n := by
      unfold constantElement
      rw [Node.form_retyped, Node.type_retyped, Node.span_retyped, hs]
      cases n.form <;> rfl
    rw [List.map_cons, constantElements, constantElements, element, ih]

omit hconfig in
theorem constantData (l : ArrayLayout) (elements : List Node) :
    R (Option (List Constant)) w (fun _ => Eq) (Gen.constantData l elements)
      (Gen.constantData l (elements.map (Node.retyped φ))) := by
  unfold Gen.constantData
  split
  · exact h.pure rfl
  · refine h.bind h.frame fun _ f f' _ hf => ?_
    rw [constantElements_retyped hf.subst]
    exact h.mono (h.ofExcept _) fun _ _ _ _ ha => ha.1

variable (literalAddress : ∀ {w : W} (t : Ty) (data : List Constant),
  R ValueId w K.operand (do Gen.emit (.globalAddr (← addLiteralGlobal t data)))
    (do Gen.emit (.globalAddr (← addLiteralGlobal t data))))

include literalAddress

omit hconfig in
theorem arrayOfConstants {l : ArrayLayout} (hl : K.storage l.storage) (data : List Constant)
    (span : Span) :
    R ValueId w K.operand (Gen.arrayOfConstants l data span) (Gen.arrayOfConstants l data span) := by
  have split : Gen.arrayOfConstants l data span = (do
      let buffer ← (do Gen.emit (.globalAddr (← addLiteralGlobal l.storage.type data)))
      let length ← emitI32 data.length
      Gen.callSupport (.arrayFromBuffer l.storage) [buffer, length] span) := by
    rw [Gen.arrayOfConstants, bind_assoc]
  rw [split]
  refine h.bind (literalAddress _ _) fun _ buffer buffer' _ hb => ?_
  exact h.bind (h.emitConst _) fun _ _ _ _ hlength => h.callSupport _ _ hl (.cons hb (.cons hlength .nil))

theorem arrayOfLiteral {t : StaticType} {l : ArrayLayout} (elements : List Node) (span : Span)
    (hl : ArrayLayout.of t span = .ok l)
    (hn : ∀ x, w ≤ x → R ValueId x K.operand (arrayOfNodes generate l elements span)
      (arrayOfNodes generate' l (elements.map (Node.retyped φ)) span)) :
    R ValueId w K.operand (Gen.arrayOfLiteral generate l elements span)
      (Gen.arrayOfLiteral generate' l (elements.map (Node.retyped φ)) span) := by
  refine h.seq (h.constantData l elements) fun x data hx => ?_
  cases data with
  | none => exact hn x hx
  | some data =>
    refine h.bind h.config ?_
    rintro y _ _ hy ⟨rfl, rfl⟩
    rw [hconfig]
    split
    · exact h.arrayOfConstants literalAddress (K.storage_of hl) data span
    · exact hn y (hx.trans hy)

/-- With equal options all steps are the same. -/
theorem coupling
    (resolveArg : ∀ {w : W} {signature : Signature} {t : StaticType}, Calls signature →
      t ∈ signature.typeArgs →
      R StaticType w (fun _ u u' => u = u' ∧ Arg u) (Gen.resolveType t) (Gen.resolveType (φ t)))
    (request : ∀ {w : W} {signature : Signature} {s : Specialization} {decl : FunctionDecl}
      {typeArgs : List StaticType} {argCount : Nat} (span : Span) {args args' : List ValueId},
      Calls signature → (∀ t ∈ typeArgs, Arg t) →
      env.program.function? signature.func = some decl →
      Specialization.resolve env.program signature.func decl typeArgs argCount span = .ok s →
      List.Forall₂ K.value args args' →
      R ValueId w K.operand
        (do Gen.callFunction (← specialize generate s span) args .none)
        (do Gen.callFunction (← specialize generate' s span) args' .none)) :
    Coupling K env env' φ Calls Arg generate generate' R where
  toSteps := h
  loadElement := h.loadElement hconfig
  storeElement := h.storeElement hconfig
  arrayOfLiteral := h.arrayOfLiteral hconfig literalAddress
  resolveArg := resolveArg
  request := request

end Options

end Steps

namespace Coupling

variable {w : W} (h : Coupling K env env' φ Calls Arg generate generate' R)

include h

/-! ## Places and operands -/

theorem load {a a' : Assignable} (ha : K.assignable w a a') (span : Span) :
    R ValueId w K.operand (Gen.load a span) (Gen.load a' span) := by
  obtain ⟨hp, t⟩ := ha
  cases hp with
  | slot hp lowered => exact h.emit (.load _ hp)
  | field ho hij index lowered =>
    exact h.bind (h.fieldPtr _ ho hij) fun _ _ _ _ hp => h.emit (.load _ hp)
  | element ha hi hl => exact h.loadElement _ span hl ha hi

theorem store {a a' : Assignable} (ha : K.assignable w a a') {x x' : ValueId} (hx : K.value x x')
    (span : Span) :
    R Unit w (fun _ => Eq) (Gen.store a x span) (Gen.store a' x' span) := by
  obtain ⟨hp, t⟩ := ha
  cases hp with
  | slot hp lowered => exact h.emitStore hx hp
  | field ho hij index lowered =>
    exact h.bind (h.fieldPtr _ ho hij) fun _ _ _ _ hp => h.emitStore hx hp
  | element ha hi hl => exact h.storeElement _ span hl ha hi hx

theorem objectAt {address address' : ValueId} (ha : K.value address address') (t : StaticType)
    (span : Span) :
    R ObjectRef w K.object (Gen.objectAt address t span) (Gen.objectAt address' t span) := by
  unfold Gen.objectAt
  split
  · exact h.map (h.descriptor _) fun x d d' _ hd => .instanceAt hd ha
  · refine h.map (h.ofExcept _) ?_
    rintro x l _ - ⟨rfl, hl⟩
    exact .arrayAt (K.storage_of hl) ha
  · exact h.pure ⟨.builtin _, .none, _⟩
  · exact h.internal

theorem objectOperand {o o' : ObjectRef} (ho : K.object w o o') :
    R ValueId w K.operand (Gen.objectOperand o) (Gen.objectOperand o') := by
  unfold Gen.objectOperand
  have ha := ho.address
  generalize o.address = a, o'.address = a' at ha
  cases ha with
  | some ha => exact h.pure ha
  | none => exact h.emitConst _

theorem requireAddress {o o' : ObjectRef} (ho : K.object w o o') (span : Span) :
    R ValueId w K.operand (Gen.requireAddress o span) (Gen.requireAddress o' span) := by
  unfold Gen.requireAddress
  rw [ho.typeName_eq]
  have ha := ho.address
  generalize o.address = a, o'.address = a' at ha
  cases ha with
  | some ha => exact h.pure ha
  | none => exact h.internal

theorem operand {v v' : Value} (hv : K.result w v v') (span : Span) :
    R ValueId w K.operand (Gen.operand v span) (Gen.operand v' span) := by
  cases hv with
  | unit => exact h.internal
  | rvalue hx t => exact h.pure hx
  | assignable ha => exact h.load ha span
  | object ho => exact h.objectOperand ho

theorem valueOf {x x' : ValueId} (hx : K.value x x') (t : StaticType) (span : Span) :
    R Value w K.result (Gen.valueOf x t span) (Gen.valueOf x' t span) := by
  unfold Gen.valueOf
  split
  · exact h.pure .unit
  iterate 3 exact h.map (h.objectAt hx _ _) fun _ _ _ _ ho => .object ho
  all_goals exact h.pure (.rvalue hx _)

theorem intoObject {v v' : Value} (hv : K.result w v v') (span : Span) :
    R ObjectRef w K.object (Gen.intoObject v span) (Gen.intoObject v' span) := by
  have other (hv : K.result w v v') :
      R ObjectRef w K.object
        (if v.type.isObject then do Gen.objectAt (← Gen.operand v span) v.type span
          else Gen.unsupported "member access" v.type.text span)
        (if v'.type.isObject then do Gen.objectAt (← Gen.operand v' span) v'.type span
          else Gen.unsupported "member access" v'.type.text span) := by
    rw [hv.type_eq]
    split
    · exact h.bind (h.operand hv span) fun _ _ _ _ hx => h.objectAt hx _ _
    · exact h.unsupported
  cases hv with
  | unit => exact other .unit
  | rvalue hx t => exact other (.rvalue hx t)
  | assignable ha => exact other (.assignable ha)
  | object ho => exact h.pure ho

/-! ## Conversions -/

theorem boxValue {v v' : Value} (hv : K.result w v v') (target : StaticType) (span : Span) :
    R Value w K.result (Gen.boxValue v target span) (Gen.boxValue v' target span) := by
  unfold Gen.boxValue
  rw [hv.type_eq]
  refine h.seq (h.layout _ _) fun x inner hx => ?_
  refine h.bind (h.operand (K.result_mono hx hv) span) fun _ y y' _ hy => ?_
  cases inner with
  | ptr => exact h.pure (.rvalue hy _)
  | i1 | i32 | f64 =>
    exact h.map (h.callSupport _ _ trivial (.cons hy .nil)) fun _ _ _ _ he => .rvalue he _
  | i64 | void => exact h.unsupported

theorem unboxValue {v v' : Value} (hv : K.result w v v') (inner : StaticType) (span : Span) :
    R Value w K.result (Gen.unboxValue v inner span) (Gen.unboxValue v' inner span) := by
  refine h.seq (h.layout _ _) fun x lowered hx => ?_
  refine h.bind (h.operand (K.result_mono hx hv) span) fun _ cell cell' _ hc => ?_
  split
  · exact h.valueOf hc _ _
  · exact h.bind (h.emit (.load _ hc)) fun _ _ _ _ hx => h.valueOf hx _ _

theorem convertFrom (explicit : Bool) {v v' : Value} (hv : K.result w v v') (span : Span)
    {m m' : Gen Value} (hi : R Value w K.result m m') (target : StaticType) :
    R Value w K.result (Gen.convertFrom explicit v span m target)
      (Gen.convertFrom explicit v' span m' target) := by
  have casted (op : CastOp) (t : Ty) : R Value w K.result
      (do return Value.rvalue (← Gen.emit (.cast op (← Gen.operand v span) t)) target)
      (do return Value.rvalue (← Gen.emit (.cast op (← Gen.operand v' span) t)) target) :=
    h.bind (h.operand hv span) fun _ _ _ _ hx =>
      h.map (h.emit (.cast op hx t)) fun _ _ _ _ he => .rvalue he _
  have none {source target : StaticType} : R Value w K.result
      (noConversion explicit source target span) (noConversion explicit source target span) :=
    h.unsupported
  unfold Gen.convertFrom
  rw [hv.type_eq]
  split
  · exact casted _ _
  · split
    · exact casted _ _
    · exact none
  · split
    · exact casted _ _
    · exact none
  · split
    · refine h.bind (h.operand hv span) fun _ x x' _ hx => ?_
      refine h.bind (h.emitConst _) fun _ zero zero' _ hz => ?_
      exact h.map (h.emit (.icmp _ hx hz)) fun _ _ _ _ he => .rvalue he _
    · exact none
  · split
    · exact h.unboxValue hv _ _
    · exact none
  · exact h.bind hi fun _ _ _ _ hu => h.boxValue hu _ _
  · exact none

theorem convert (explicit : Bool) {v v' : Value} (hv : K.result w v v') (span : Span)
    (target : StaticType) :
    R Value w K.result (Gen.convert explicit v span target)
      (Gen.convert explicit v' span target) := by
  induction target with
  | nullable inner ih =>
    unfold Gen.convert
    rw [hv.type_eq]
    split
    · exact h.pure hv
    · exact h.convertFrom explicit hv span ih _
  | _ =>
    unfold Gen.convert
    rw [hv.type_eq]
    split
    · exact h.pure hv
    · exact h.convertFrom explicit hv span (h.pure hv) _

theorem castOperand {v v' : Value} (hv : K.result w v v') (t : StaticType) (span : Span) :
    R ValueId w K.operand (Gen.castOperand v t span) (Gen.castOperand v' t span) :=
  h.bind (h.convert false hv span t) fun _ _ _ _ hu => h.operand hu span

theorem assign {a a' : Assignable} (ha : K.assignable w a a') {v v' : Value}
    (hv : K.result w v v') (span : Span) :
    R Value w K.result (Gen.assign a v span) (Gen.assign a' v' span) := by
  unfold Gen.assign
  rw [ha.type_eq]
  refine h.bind (h.castOperand hv a.type span) fun x y y' hx hy => ?_
  refine h.seq (h.store (K.assignable_mono hx ha) hy span) fun _ _ _ => ?_
  exact h.valueOf hy _ _

/-! ## Nodes -/

omit h in
/-- The two runs over a node yield related values, in every world. -/
def Couples (K : Outlook W) (φ : StaticType → StaticType) (generate generate' : Generate)
    (R : (α : Type) → W → (W → α → α → Prop) → Gen α → Gen α → Prop) (n : Node) : Prop :=
  ∀ w, R Value w K.result (generate n) (generate' (n.retyped φ))

theorem generateOperand {n : Node} (hn : Couples K φ generate generate' R n) (t : StaticType) :
    R ValueId w K.operand (Gen.generateOperand generate n t)
      (Gen.generateOperand generate' (n.retyped φ) t) := by
  unfold Gen.generateOperand
  rw [Node.span_retyped]
  exact h.bind (hn w) fun _ _ _ _ hv => h.castOperand hv t n.span

theorem operands {args : List Node} (ha : ∀ a ∈ args, Couples K φ generate generate' R a)
    (t : StaticType) :
    R (List ValueId) w K.operands (args.mapM fun a => Gen.generateOperand generate a t)
      ((args.map (Node.retyped φ)).mapM fun a => Gen.generateOperand generate' a t) := by
  rw [List.mapM_map]
  exact h.mapM fun a hm _ => h.generateOperand (ha a hm) t

theorem condition {n : Node} (hn : Couples K φ generate generate' R n) :
    R ValueId w K.operand (Gen.condition generate n) (Gen.condition generate' (n.retyped φ)) := by
  refine h.bind (hn w) fun _ v v' _ hv => ?_
  rw [hv.type_eq, Node.span_retyped]
  split
  · exact h.operand hv _
  · exact h.unsupported

theorem logicalOperand (op : BinaryOp) {n : Node} (hn : Couples K φ generate generate' R n)
    (span : Span) :
    R ValueId w K.operand (Gen.logicalOperand generate op n span)
      (Gen.logicalOperand generate' op (n.retyped φ) span) := by
  refine h.bind (hn w) fun _ v v' _ hv => ?_
  rw [hv.type_eq]
  split
  · exact h.operand hv _
  · exact h.unsupported

theorem conditionalArm {n : Node} (hn : Couples K φ generate generate' R n) (t : StaticType)
    (span : Span) :
    R (Option ValueId) w (fun _ => Option.Rel K.value) (Gen.conditionalArm generate n t span)
      (Gen.conditionalArm generate' (n.retyped φ) t span) := by
  refine h.bind (hn w) fun _ v v' _ hv => ?_
  split
  · exact h.pure .none
  · exact h.map (h.castOperand hv _ _) fun _ _ _ _ he => .some he

end Coupling

end Gen

end TypedLowering
