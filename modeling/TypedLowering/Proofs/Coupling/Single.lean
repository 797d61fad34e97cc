import TypedLowering.Proofs.Coupling.Statement
import TypedLowering.Proofs.Lowering.Descriptor
import TypedLowering.Proofs.Ssa.Calls

/-!
One run on its own. What every step of a run does to the state is one of few things: most steps leave
the functions alone, or change the body of the current one without calling anything; blocks are added
and moved to. `Trackable` lists what a kind of worlds needs to keep up with these, and with calls and
requests; a run then goes from world to world.
-/
namespace TypedLowering
set_option autoImplicit false
open Ssa

/-- The struct of array headers. -/
def headerStruct : StructDef := ⟨"brisk.array", [.i32, .i32, .ptr]⟩

namespace GenState

/-- The state with the struct of array headers. -/
def withHeader (s : GenState) : GenState :=
  let i := s.unit.module.nextStruct
  { s with unit := { (s.addStruct headerStruct).unit with arrayHeader := some i } }

/-- The state with one more constant array. -/
def withLiteral (s : GenState) (t : Ty) (data : List Constant) : GenState :=
  let name := "brisk.lit." ++ toString s.unit.module.globals.size
  { s with unit := { s.unit with module := (s.unit.module.addGlobal name t data).2 } }

/-- What happens to a state in the steps that leave functions alone. -/
inductive Quiet (p : Program) (s : GenState) : GenState → Prop
  | same : Quiet p s s
  | header (h : s.unit.arrayHeader = none) : Quiet p s s.withHeader
  | literal (t : Ty) (data : List Constant) : Quiet p s (s.withLiteral t data)
  /-- A struct of a class that turns out to have no descriptor. -/
  | abandoned (d : StructDef) : Quiet p s (s.addStruct d)
  | descriptor {cls : ClassId} {decl : ClassDecl} {fields : List FieldInfo}
    {methods : List (String × FuncId)} (hdecl : p.class? cls = some decl)
    (hfields : decl.fieldInfos = .ok fields) (hmethods : p.methodNames decl = .ok methods)
    (hnone : s.unit.descriptors.get? cls = none) :
    Quiet p s ((s.addStruct (decl.struct fields)).describe cls
      (decl.descriptor cls fields methods s.unit.module.nextStruct))

namespace Quiet

variable {p : Program} {s s' : GenState} (h : s.Quiet p s')

include h

/-- Nothing has been requested in between. -/
theorem toAlike : s.Alike s' := by
  cases h <;> exact ⟨rfl, rfl, rfl, rfl, rfl, rfl, rfl⟩

theorem collector : s'.unit.gcRequired = s.unit.gcRequired := by
  cases h <;> rfl

theorem exports : s'.unit.module.exports = s.unit.module.exports := by
  cases h <;> rfl

end Quiet

end GenState

theorem Frame.Alike.refl {E : ValueId → ValueId → Prop} {S : StructId → StructId → Prop}
    {T : ElementStorage → Prop} (hE : ∀ x, E x x) (hS : ∀ i, S i i) (hT : ∀ s, T s) (f : Frame) :
    f.Alike (fun t => t) E S T f where
  block := rfl
  scope := by
    refine List.forall₂_same.mpr fun b _ => ⟨rfl, ?_⟩
    cases b.2 with
    | constant x t => exact .constant (hE x) t
    | slot p lowered t => exact .slot (hE p) lowered t
  returnType := rfl
  loops := rfl
  subst := fun _ => rfl
  this := by
    cases f.this with
    | none => exact .none
    | some o =>
      obtain ⟨k, a, t⟩ := o
      have ha : Option.Rel E a a := by
        cases a with
        | none => exact .none
        | some x => exact .some (hE x)
      refine .some ⟨?_, ha, t⟩
      cases k with
      | cls d => exact .cls ⟨d.layout, hS _, rfl⟩
      | array l => exact .array (hT _)
      | builtin b => exact .builtin b

namespace Gen

variable {W : Type} [CodeWorld W] {K : Outlook W} {env : Env} {E : W → Failure → GenState → Prop}

/-- Every run of the first computation from `w` gets to a later world with a result that has `V`, or
fails with `E`. -/
def Tracks (env : Env) (E : W → Failure → GenState → Prop) (α : Type) (w : W)
    (V : W → α → α → Prop) (m _ : Gen α) : Prop :=
  Leads env (CodeWorld.state w) m
    (fun a s => ∃ x : W, CodeWorld.state x = s ∧ w ≤ x ∧ ∃ a', V x a a') (E w)

/-- What the worlds of single runs need. -/
structure Trackable (K : Outlook W) (env : Env) (E : W → Failure → GenState → Prop) : Prop where
  value : ∀ x, K.value x x
  attributes : ∀ a, K.attributes a a
  storage : ∀ s, K.storage s
  later : ∀ {w x : W} {e s}, w ≤ x → E x e s → E w e s
  struct : ∀ (w : W) i, K.struct w i i
  misplaced : ∀ (w : W), E w .misplaced (CodeWorld.state w)
  refused : ∀ {w : W} {e s}, (CodeWorld.state w).Quiet env.program s → e ≠ .misplaced →
    e ≠ .exhausted → E w e s
  quiet : ∀ {w : W} {s}, (CodeWorld.state w).Quiet env.program s →
    ∃ x : W, CodeWorld.state x = s ∧ w ≤ x
  edit : ∀ {w : W} {g}, Function.Edit (CodeWorld.state w).frame.block g →
    ∃ x : W, CodeWorld.state x = (CodeWorld.state w).mapFunction g ∧ w ≤ x
  opened : ∀ {w x : W} {word}, CodeWorld.state x =
    (CodeWorld.state w).mapFunction (fun f => f.addBlock word) → w ≤ x →
    K.block x ((CodeWorld.state w).query .absent Function.nextBlock)
  moved : ∀ {w : W} {b}, K.block w b → ∃ x : W, CodeWorld.state x =
    { CodeWorld.state w with frame := { (CodeWorld.state w).frame with block := b } } ∧ w ≤ x
  modifyFrame : ∀ {w : W} {g : Frame → Frame},
    (∀ f, (g f).function = f.function ∧ (g f).block = f.block ∧ (g f).subst = f.subst) →
    ∃ x : W, CodeWorld.state x =
      { CodeWorld.state w with frame := g (CodeWorld.state w).frame } ∧ w ≤ x
  callSupport : ∀ {w : W} (f : SupportFunction) (args : List ValueId) (span : Span),
    Tracks env E ValueId w (fun _ => Eq) (callSupport f args span) (callSupport f args span)
  declareMath : ∀ {w : W} {symbol : String} (arity : Nat) (attrs : Attributes) (span : Span),
    symbol ∈ MathMember.symbols → Tracks env E FunctionId w K.declared
      (declareMath symbol arity attrs span) (declareMath symbol arity attrs span)
  callFunction : ∀ {w : W} {i j : FunctionId} (args : List ValueId) (attrs : Attributes),
    K.declared w i j →
    Tracks env E ValueId w (fun _ => Eq) (callFunction i args attrs) (callFunction j args attrs)

/-- What the signatures of a tree pass for type parameters has `Arg`. -/
def Supplies (Calls : Signature → Prop) (Arg : StaticType → Prop) (w : W) : Prop :=
  ∀ signature : Signature, Calls signature → ∀ t ∈ signature.typeArgs,
    Arg (t.substitute (CodeWorld.state w).frame.subst)

/-- Requests of a tree, each with the call that it is made for. -/
def Serves (env : Env) (Calls : Signature → Prop) (Arg : StaticType → Prop) (generate : Generate)
    (E : W → Failure → GenState → Prop) (w : W) : Prop :=
  ∀ {signature : Signature} {s : Specialization} {decl : FunctionDecl} {typeArgs : List StaticType}
    {argCount : Nat} (span : Span) (args : List ValueId), Calls signature → (∀ t ∈ typeArgs, Arg t) →
    env.program.function? signature.func = some decl →
    Specialization.resolve env.program signature.func decl typeArgs argCount span = .ok s →
    Tracks env E ValueId w (fun _ => Eq)
      (do Gen.callFunction (← specialize generate s span) args .none)
      (do Gen.callFunction (← specialize generate s span) args .none)

namespace Trackable

variable {α β : Type} {w : W}

/-- A step that looks something up. -/
theorem look {m m' : Gen α} {V : W → α → α → Prop} {a a' : α}
    (hm : m env (CodeWorld.state w) = .ok a (CodeWorld.state w)) (hV : V w a a') :
    Tracks env E α w V m m' :=
  .of_ok hm ⟨w, rfl, le_rfl, a', hV⟩

protected theorem bind (h : Trackable K env E) {V : W → α → α → Prop}
    {U : W → β → β → Prop} {m m' : Gen α} {f f' : α → Gen β} (hm : Tracks env E α w V m m')
    (hf : ∀ x a a', w ≤ x → V x a a' → Tracks env E β x U (f a) (f' a')) :
    Tracks env E β w U (m >>= f) (m' >>= f') := by
  refine Leads.bind hm ?_
  rintro a _ - ⟨x, rfl, hx, a', hV⟩
  refine (hf x a a' hx hV).mono ?_ fun e s he => h.later hx he
  rintro b _ ⟨y, rfl, hy, hU⟩
  exact ⟨y, rfl, hx.trans hy, hU⟩

theorem emit (h : Trackable K env E) {d d' : Definition} (hd : d.op.callee? = none) :
    Tracks env E ValueId w K.operand (Gen.emit d) (Gen.emit d') := by
  obtain ⟨x, hx, hwx⟩ := h.edit (w := w) (.append hd)
  exact .emit ⟨x, hx, hwx, _, h.value _⟩ (h.misplaced w)

/-- What a run does with its result does not depend on that of the other one. -/
theorem own {m m' m'' : Gen α} {V : W → α → α → Prop} (hV : ∀ x a, V x a a)
    (hm : Tracks env E α w (fun _ => Eq) m m') : Tracks env E α w V m m'' := by
  refine Leads.mono hm ?_ fun _ _ he => he
  rintro a s ⟨x, hs, hwx, -⟩
  exact ⟨x, hs, hwx, a, hV x a⟩

theorem emitSlot (h : Trackable K env E) (t : Ty) :
    Tracks env E ValueId w K.operand (Gen.emitSlot t) (Gen.emitSlot t) := by
  obtain ⟨x, hx, hwx⟩ := h.edit (w := w) (.addSlot t)
  exact .of_ok rfl ⟨x, hx, hwx, _, h.value _⟩

/-- A step that leaves functions alone. -/
theorem quietly (h : Trackable K env E) {m m' : Gen α} {V : W → α → α → Prop}
    (hV : ∀ x a, V x a a)
    (hm : Leads env (CodeWorld.state w) m (fun _ => (CodeWorld.state w).Quiet env.program)
      fun e s => (CodeWorld.state w).Quiet env.program s ∧ e ≠ .misplaced ∧ e ≠ .exhausted) :
    Tracks env E α w V m m' := by
  refine hm.mono (fun a s hs => ?_) fun e s he => h.refused he.1 he.2.1 he.2.2
  obtain ⟨x, hx, hwx⟩ := h.quiet hs
  exact ⟨x, hx, hwx, a, hV x a⟩

theorem descriptor_quiet (s : GenState) (cls : ClassId) :
    Leads env s (descriptor cls) (fun _ => s.Quiet env.program)
      fun e s' => s.Quiet env.program s' ∧ e ≠ .misplaced ∧ e ≠ .exhausted :=
  descriptor_leads (fun _ _ => .same) (fun _ hm hx => ⟨.same, hm, hx⟩)
    (fun _ d hm hx => ⟨.abandoned d, hm, hx⟩)
    fun _ _ _ hnone hdecl hfields hmethods => .descriptor hdecl hfields hmethods hnone

theorem arrayHeader_quiet (s : GenState) :
    Leads env s arrayHeader (fun _ => s.Quiet env.program)
      fun e s' => s.Quiet env.program s' ∧ e ≠ .misplaced ∧ e ≠ .exhausted := by
  refine .read rfl ?_
  split
  · exact .pure .same
  · next hnone => exact .of_ok rfl (.header hnone)

/-- A run keeps to the worlds: every step of a single computation does. -/
theorem steps (h : Trackable K env E) : Steps K env env (fun t => t) (Tracks env E) where
  similar := .refl env
  hints := h.attributes _
  pure := fun hV => look rfl hV
  bind := h.bind
  throw := fun hm hx => .of_error rfl (h.refused .same hm hx)
  reads := look rfl ⟨rfl, rfl⟩
  frame := look rfl (.refl h.value (h.struct _) h.storage _)
  modifyFrame := fun _ hg _ => by
    obtain ⟨x, hx, hwx⟩ := h.modifyFrame hg
    exact .of_ok rfl ⟨x, hx, hwx, _, rfl⟩
  isTerminated := look rfl rfl
  emit := fun {_ d _} hd => h.emit (by
    have hlocal := hd.isLocal.1
    cases hop : d.op with
    | call callee args attrs =>
      rw [hop] at hlocal
      cases hlocal
    | _ => rfl)
  emitBinary := fun _ _ _ _ _ _ _ =>
    h.bind (V := fun _ => Eq) (look rfl rfl) fun _ _ _ _ _ => h.emit rfl
  emitSelect := fun _ _ _ => h.bind (V := fun _ => Eq) (look rfl rfl) fun _ _ _ _ _ => h.emit rfl
  fieldPtr := fun _ _ _ => h.emit rfl
  emitSlot := h.emitSlot
  terminate := fun {_ t _} _ => by
    obtain ⟨x, hx, hwx⟩ := h.edit (.terminate t)
    exact .terminate ⟨x, hx, hwx, _, rfl⟩ (h.misplaced _)
  appendBlock := fun word => by
    obtain ⟨x, hx, hwx⟩ := h.edit (.addBlock word)
    exact .of_ok rfl ⟨x, hx, hwx, _, rfl, h.opened hx hwx⟩
  positionAt := fun hb => by
    obtain ⟨x, hx, hwx⟩ := h.moved hb
    exact .of_ok rfl ⟨x, hx, hwx, _, rfl⟩
  param := fun _ => h.value _
  arrayHeader := h.quietly (fun x i => h.struct x i) (arrayHeader_quiet _)
  descriptor := fun cls => h.quietly (fun x d => ⟨d.layout, h.struct x _, rfl⟩)
    (descriptor_quiet _ cls)
  callSupport := fun f _ _ span _ _ => own (fun _ => h.value) (h.callSupport f _ span)
  declareMath := fun arity _ _ span hs _ => h.declareMath arity _ span hs
  callFunction := fun hij _ _ => own (fun _ => h.value) (h.callFunction _ _ hij)

theorem literalAddress (h : Trackable K env E) (t : Ty) (data : List Constant) :
    Tracks env E ValueId w K.operand (do Gen.emit (.globalAddr (← addLiteralGlobal t data)))
      (do Gen.emit (.globalAddr (← addLiteralGlobal t data))) := by
  refine h.bind (V := fun _ => Eq) (h.quietly (fun _ _ => rfl) ?_) ?_
  · exact .of_ok rfl (.literal t data)
  · exact fun _ _ _ _ _ => h.emit rfl

/-- What a single computation needs is what `Coupling` asks of a pair. -/
theorem coupling (h : Trackable K env E) {Calls : Signature → Prop} {Arg : StaticType → Prop}
    {generate : Generate} (supplies : ∀ w : W, Supplies Calls Arg w)
    (serves : ∀ w : W, Serves env Calls Arg generate E w) :
    Coupling K env env (fun t => t) Calls Arg generate generate (Tracks env E) :=
  h.steps.coupling rfl (h.literalAddress) (fun hc ht => look rfl ⟨rfl, supplies _ _ hc _ ht⟩)
    fun span _ _ hc ha hdecl hres _ => own (fun _ => h.value) (serves _ span _ hc ha hdecl hres)

/-- Bodies: they make requests only in their nodes. -/
theorem body (h : Trackable K env E) {generate : Generate} {s : Specialization} {body : Node}
    (hb : Coupling.Couples K (fun t => t) generate generate (Tracks env E) body)
    (hd : ∀ q ∈ s.params, ∀ d, q.default = some d →
      Coupling.Couples K (fun t => t) generate generate (Tracks env E) d) (span : Span) :
    Tracks env E Unit w (fun _ => Eq) (generateBody generate s body span)
      (generateBody generate s body span) := by
  have hc : Coupling K env env (fun t => t) (fun _ => False) (fun _ => True) generate generate
      (Tracks env E) :=
    h.coupling (fun _ _ hc => hc.elim) fun _ _ _ _ _ _ _ _ hc => hc.elim
  exact hc.generateBody rfl rfl rfl (List.map_id'' ResolvedParam.retyped_self _).symm hb hd span

/-- All nodes, if requests can be answered once the nodes of their bodies can be generated. -/
theorem nodes (h : Trackable K env E) (exhausted : ∀ w : W, E w .exhausted (CodeWorld.state w))
    (serves : ∀ depth, (∀ n, Coupling.Couples K (fun t => t) (Gen.generate depth)
        (Gen.generate depth) (Tracks env E) n) →
      ∀ w : W, Serves env (fun _ => True) (fun _ => True) (Gen.generate depth) E w) :
    ∀ depth n, Coupling.Couples K (fun t => t) (Gen.generate depth) (Gen.generate depth)
      (Tracks env E) n
  | 0, _ => fun w => .of_error rfl (exhausted w)
  | depth + 1, _ => by
    have hn := nodes h exhausted serves depth
    have hc : Coupling K env env (fun t => t) (fun _ => True) (fun _ => True) (Gen.generate depth)
        (Gen.generate depth) (Tracks env E) :=
      h.coupling (fun _ _ _ _ _ => trivial) (serves depth hn)
    exact hc.generateNode (fun _ _ => trivial) fun c _ => hn c

end Trackable

end Gen

end TypedLowering
