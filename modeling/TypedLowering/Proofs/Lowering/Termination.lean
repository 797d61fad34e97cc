import TypedLowering.Proofs.Coupling.Single
import TypedLowering.Proofs.Lowering.Bound
import TypedLowering.Proofs.Lowering.Depth
import TypedLowering.Proofs.Lowering.Persistence

/-!
Generation comes to an end, whatever the recursion between the functions of a program. Down a tree the
numbers of nodes decrease; from a call to the body of the function it calls they do not, but then a
definition has been entered before, and there are finitely many symbols for definitions. So the depth
of the recursion is bounded by one path down a tree for each symbol.
-/
namespace TypedLowering
set_option autoImplicit false
open Ssa

/-! ## Trees -/

/-- A node that stands in the program under its number, whose children were built before it. -/
def Node.BuiltIn (p : Program) (n : Node) : Prop :=
  p.nodes[n.id.index]? = some n ∧ ∀ c ∈ n.children, c.id.index < n.id.index

namespace Node

variable {p : Program} {n c : Node}

theorem Under.id_lt (hc : c.Under n) : n.Everywhere (BuiltIn p) → c.id.index < n.id.index := by
  induction hc with
  | single hpart =>
    obtain ⟨q, hq⟩ := hpart
    exact fun h => h.here.2 _ (Form.mem_children_of_mem_parts hq)
  | tail _ hpart ih =>
    obtain ⟨q, hq⟩ := hpart
    exact fun h =>
      Nat.lt_trans (ih (h.part hq)) (h.here.2 _ (Form.mem_children_of_mem_parts hq))

theorem BuiltIn.id_lt_size (h : n.BuiltIn p) : n.id.index < p.nodes.size :=
  (Array.getElem?_eq_some_iff.mp h.1).1

/-- The type arguments of a node of the program are written in it. -/
theorem BuiltIn.mem_writtenArgs (h : n.BuiltIn p) {s : Signature} (hs : n.signature? = some s)
    {t : StaticType} (ht : t ∈ s.typeArgs) : t ∈ p.writtenArgs := by
  refine List.mem_flatMap.mpr ⟨n, Array.mem_toList_iff.mpr (Array.mem_of_getElem? h.1), ?_⟩
  rw [hs]
  exact List.mem_flatMap.mpr ⟨s, List.mem_singleton_self s, ht⟩

end Node

/-! ## Worlds -/

/-- A state from which at most `r` more definitions can be entered. -/
structure BoundedWorld (p : Program) (r : Nat) where
  state : GenState
  pending : state.unit.pending p ≤ r
  passed : ∀ name t, state.frame.subst.get? name = some t → t ∈ p.argTypes

namespace BoundedWorld

variable {p : Program} {r : Nat}

instance : CodeWorld (BoundedWorld p r) where
  state := BoundedWorld.state
  le _ _ := True
  le_refl _ := trivial
  le_trans _ _ _ _ _ := trivial

def outlook (p : Program) (r : Nat) : Outlook (BoundedWorld p r) where
  value := Eq
  attributes := Eq
  storage _ := True
  block _ _ := True
  declared _ _ _ := True
  struct _ _ _ := True
  attributes_none := rfl
  storage_of := fun _ => trivial
  block_mono := fun _ => id
  declared_mono := fun _ => id
  struct_mono := fun _ => id

/-- Runs do not fail for lack of depth. -/
def Fails (_ : BoundedWorld p r) (e : Failure) (_ : GenState) : Prop := e ≠ .exhausted

theorem exists_of_table {w : BoundedWorld p r} {s : GenState}
    (ht : s.unit.specializations = w.state.unit.specializations)
    (hs : s.frame.subst = w.state.frame.subst) :
    ∃ x : BoundedWorld p r, CodeWorld.state x = s ∧ w ≤ x := by
  refine ⟨⟨s, ?_, ?_⟩, rfl, trivial⟩
  · rw [UnitState.pending, ht]
    exact w.pending
  · rw [hs]
    exact w.passed

end BoundedWorld

namespace Gen

variable {env : Env} {p : Program} {r : Nat} {s : GenState}

/-! ## Steps -/

/-- A run that keeps the table and what type parameters stand for, and does not fail for lack of
depth. -/
def KeepsTable (env : Env) (s : GenState) {α : Type} (m : Gen α) : Prop :=
  Leads env s m
    (fun _ s' => s'.unit.specializations = s.unit.specializations ∧ s'.frame = s.frame)
    fun e _ => e ≠ .exhausted

theorem declareExternal_keepsTable (name : String) (params : List Ty) (ret : Ty) (attrs : Attributes)
    (variadic : Bool) (span : Span) :
    KeepsTable env s (declareExternal name params ret attrs variadic span) := by
  refine .read rfl ?_
  split
  · exact .of_ok rfl ⟨rfl, rfl⟩
  · exact .of_error rfl (by simp)

theorem emit_keepsTable (d : Definition) : KeepsTable env s (emit d) :=
  .emit ⟨rfl, rfl⟩ (by simp)

theorem KeepsTable.bind {α β : Type} {m : Gen α} {f : α → Gen β} (hm : KeepsTable env s m)
    (hf : ∀ a s', KeepsTable env s' (f a)) : KeepsTable env s (m >>= f) := by
  refine Leads.bind hm fun a s' _ h => (hf a s').mono (fun _ _ h' => ?_) fun _ _ he => he
  exact ⟨h'.1.trans h.1, h'.2.trans h.2⟩

theorem callSupport_keepsTable (f : SupportFunction) (args : List ValueId) (span : Span) :
    KeepsTable env s (callSupport f args span) :=
  callSupport_of (P := fun _ m => ∀ s, KeepsTable env s m)
    (fun hm hk s => (hm s).bind fun a s' => hk a s')
    (fun _ => declareExternal_keepsTable _ _ _ _ _ _) (fun _ => .of_ok rfl ⟨rfl, rfl⟩)
    (fun d _ => emit_keepsTable d) args s

theorem callFunction_keepsTable (callee : FunctionId) (args : List ValueId) (attrs : Attributes) :
    KeepsTable env s (callFunction callee args attrs) :=
  .read rfl (emit_keepsTable _)

/-- Steps that keep the table lead from world to world. -/
theorem KeepsTable.tracks {w : BoundedWorld p r} {α : Type} {m m' : Gen α}
    {V : BoundedWorld p r → α → α → Prop} (hm : KeepsTable env w.state m) (hV : ∀ x a, V x a a) :
    Tracks env BoundedWorld.Fails α w V m m' := by
  refine Leads.mono hm (fun a s' h => ?_) fun _ _ he => he
  obtain ⟨x, hx, hwx⟩ := BoundedWorld.exists_of_table (w := w) h.1 (by rw [h.2])
  exact ⟨x, hx, hwx, a, hV x a⟩

theorem bounded_trackable (env : Env) :
    Trackable (BoundedWorld.outlook p r) env (BoundedWorld.Fails (p := p) (r := r)) where
  value := fun _ => rfl
  attributes := fun _ => rfl
  storage := fun _ => trivial
  later := fun _ he => he
  struct := fun _ _ => trivial
  misplaced := fun _ => by simp [BoundedWorld.Fails]
  refused := fun _ _ he => he
  quiet := fun hq =>
    BoundedWorld.exists_of_table hq.toAlike.specializations (congrArg Frame.subst hq.toAlike.frame)
  edit := fun _ => BoundedWorld.exists_of_table rfl rfl
  opened := fun _ _ => trivial
  moved := fun _ => BoundedWorld.exists_of_table rfl rfl
  modifyFrame := fun {w g} hg => BoundedWorld.exists_of_table rfl (hg w.state.frame).2.2
  callSupport := fun f args span => (callSupport_keepsTable f args span).tracks fun _ _ => rfl
  declareMath := fun _ _ _ _ => (declareExternal_keepsTable _ _ _ _ _ _).tracks fun _ _ => trivial
  callFunction := fun args attrs _ => (callFunction_keepsTable _ args attrs).tracks fun _ _ => rfl

/-! ## Requests -/

/-- Signatures that pass written types, each closed or a type parameter. -/
def PassesWritten (p : Program) (signature : Signature) : Prop :=
  ∀ t ∈ signature.typeArgs, t ∈ p.writtenArgs ∧ t.IsArgument

/-- All nodes of the trees of a program, at one depth. -/
def Generates (env : Env) (r depth : Nat) : Prop :=
  ∀ n : Node, n.Everywhere (Node.BuiltIn env.program) → n.AppliesAt StaticType.IsArgument →
    Coupling.Couples (BoundedWorld.outlook env.program r) (fun t => t) (Gen.generate depth)
      (Gen.generate depth) (Tracks env BoundedWorld.Fails) n

section Requests

variable {depth : Nat} {func : FuncId} {decl : FunctionDecl} {typeArgs : List StaticType}
  {argCount : Nat} {span : Span} {sp : Specialization}

/-- A request is answered, if bodies can be generated as long as something is left to generate. -/
theorem specialize_bounded (hb : env.program.Everywhere (Node.BuiltIn env.program))
    (ha : env.program.AppliesAt StaticType.IsArgument)
    (hnodes : ∀ r', r = r' + 1 → Generates env r' depth)
    (hdecl : env.program.function? func = some decl)
    (hres : Specialization.resolve env.program func decl typeArgs argCount span = .ok sp)
    (htypes : ∀ t ∈ typeArgs, t ∈ env.program.argTypes) (hp : s.unit.pending env.program ≤ r) :
    Leads env s (specialize (Gen.generate depth) sp span)
      (fun _ s' => s'.unit.pending env.program ≤ r ∧ s'.frame = s.frame)
      fun e _ => e ≠ .exhausted := by
  have hresolves := Specialization.resolve_ok hres
  refine specialize_leads ?_ ?_ ?_ ?_
  · intro hrefused
    obtain ⟨params, ret, hparams, hret⟩ := hresolves.exists_lowered span
    have hfunc : env.program.function? sp.func = some decl := by rw [hresolves.func_eq, hdecl]
    exact (hrefused ⟨params, ret, decl, hparams, hret, hfunc⟩).elim
  · intro decl' params ret _ _ _ _
    refine Leads.mono (declareExternal_keepsTable _ _ _ _ _ _) (fun _ s' h => ?_) fun _ _ he => he
    exact ⟨by rw [UnitState.pending, h.1]; exact hp, h.2⟩
  · intro _ _ _ _ _ _ _ _
    exact ⟨hp, rfl⟩
  · intro decl' body params ret hdecl' hbody _ _ hnone
    have hlt : (s.started sp (sp.symbol env.program) params ret).unit.pending env.program <
        s.unit.pending env.program :=
      UnitState.pending_lt (Specialization.symbol_mem_definable hdecl hres htypes) hnone rfl
    obtain ⟨r', rfl⟩ : ∃ r', r = r' + 1 := ⟨r - 1, by omega⟩
    let w : BoundedWorld env.program r' := {
      state := s.started sp (sp.symbol env.program) params ret
      pending := by omega
      passed := fun name t ht => htypes t (by
        rw [← hresolves.typeArgs_eq]
        exact hresolves.mem_typeArgs ht) }
    have hdecl'' : env.program.function? func = some decl' := by rw [← hresolves.func_eq, hdecl']
    refine Leads.mono ((bounded_trackable env).body (w := w)
      (hnodes r' rfl body (hb.body hdecl' hbody) (ha.body hdecl' hbody)) ?_ span) ?_
      fun _ _ he => he
    · intro q hq d hd
      obtain ⟨param, hparam, hdefault⟩ := hresolves.exists_default hq hd
      exact hnodes r' rfl d (hb.default hdecl hparam hdefault) (ha.default hdecl hparam hdefault)
    · rintro _ s' ⟨x, rfl, -⟩
      exact ⟨Nat.le_succ_of_le x.pending, rfl⟩

theorem serves_bounded (hb : env.program.Everywhere (Node.BuiltIn env.program))
    (ha : env.program.AppliesAt StaticType.IsArgument)
    (hnodes : ∀ r', r = r' + 1 → Generates env r' depth) (w : BoundedWorld env.program r) :
    Serves env (PassesWritten env.program) (· ∈ env.program.argTypes) (Gen.generate depth)
      BoundedWorld.Fails w := by
  intro signature sp decl typeArgs argCount span args _ htypes hdecl hres
  refine Leads.bind (specialize_bounded hb ha hnodes hdecl hres htypes w.pending) ?_
  rintro callee s - ⟨hpending, hframe⟩
  have hcall : KeepsTable env s (callFunction callee args .none) := callFunction_keepsTable _ _ _
  refine Leads.mono hcall (fun a s' h => ?_) fun _ _ he => he
  refine ⟨⟨s', ?_, ?_⟩, rfl, trivial, a, rfl⟩
  · rw [UnitState.pending, h.1]
    exact hpending
  · rw [h.2, hframe]
    exact w.passed

/-- Down a tree the numbers decrease. -/
theorem generates_step (hb : env.program.Everywhere (Node.BuiltIn env.program))
    (ha : env.program.AppliesAt StaticType.IsArgument)
    (hnodes : ∀ r', r = r' + 1 → ∀ depth, (env.program.nodes.size + 1) * r ≤ depth →
      Generates env r' depth) :
    ∀ (depth : Nat) (n : Node), n.Everywhere (Node.BuiltIn env.program) →
      n.AppliesAt StaticType.IsArgument →
      n.id.index + 1 + (env.program.nodes.size + 1) * r ≤ depth →
      Coupling.Couples (BoundedWorld.outlook env.program r) (fun t => t) (Gen.generate depth)
        (Gen.generate depth) (Tracks env BoundedWorld.Fails) n
  | 0, _, _, _, hd => by omega
  | depth + 1, n, hn, hargs, hd => by
    have hc : Coupling (BoundedWorld.outlook env.program r) env env (fun t => t)
        (PassesWritten env.program) (· ∈ env.program.argTypes) (Gen.generate depth)
        (Gen.generate depth) (Tracks env BoundedWorld.Fails) :=
      (bounded_trackable env).coupling
        (fun w _ hs t ht => Program.mem_argTypes (hs t ht).1 (hs t ht).2 w.passed)
        (serves_bounded hb ha fun r' hr => hnodes r' hr depth (by omega))
    refine hc.generateNode (fun s hs t ht => ?_) fun c hunder => ?_
    · exact ⟨hn.here.mem_writtenArgs hs ht, hargs.typeArg hs ht⟩
    · have hlt := hunder.id_lt hn
      exact generates_step hb ha hnodes depth c (hunder.everywhere hn) (hunder.everywhere hargs)
        (by omega)

/-- Each definition that is still to come leaves room for one more path down a tree. -/
theorem generates (hb : env.program.Everywhere (Node.BuiltIn env.program))
    (ha : env.program.AppliesAt StaticType.IsArgument) (r : Nat) {depth : Nat}
    (hd : (env.program.nodes.size + 1) * (r + 1) ≤ depth) : Generates env r depth := by
  have room {r depth : Nat} (hd : (env.program.nodes.size + 1) * (r + 1) ≤ depth) {n : Node}
      (hn : n.Everywhere (Node.BuiltIn env.program)) :
      n.id.index + 1 + (env.program.nodes.size + 1) * r ≤ depth := by
    have hlt := hn.here.id_lt_size
    rw [Nat.mul_succ] at hd
    omega
  induction r generalizing depth with
  | zero =>
    intro n hn hargs
    exact generates_step hb ha (fun _ hr => by cases hr) depth n hn hargs (room hd hn)
  | succ r ih =>
    intro n hn hargs
    refine generates_step hb ha (fun r' hr depth' hd' => ?_) depth n hn hargs (room hd hn)
    cases hr
    exact ih hd'

end Requests

end Gen

/-! ## Compilation -/

namespace Compiler

variable {c : Compiler} {depth : Nat}

theorem entryWithin_bounded {env : Env} (hb : env.program.Everywhere (Node.BuiltIn env.program))
    (ha : env.program.AppliesAt StaticType.IsArgument)
    (hd : (env.program.nodes.size + 1) * env.program.specializationBound ≤ depth) (s : GenState)
    (func : FuncId) :
    Gen.Leads env s (entryWithin (fun _ => depth) func) (fun _ _ => True)
      fun e _ => e ≠ .exhausted := by
  refine Gen.Leads.bind (Q := fun d s' => env.program.function? func = some d ∧ s = s')
    (.functionDecl (fun d h => ⟨h, rfl⟩) fun _ => by simp) ?_
  rintro decl _ - ⟨hdecl, rfl⟩
  split
  · exact .of_error rfl (by simp)
  · split
    · exact .of_error rfl (by simp)
    · refine .read rfl ?_
      refine Gen.Leads.bind (Q := fun sp s' => Specialization.resolve env.program func decl []
        (decl.params.filter fun q => !q.variadic).length decl.span = .ok sp ∧ s = s')
        (.ofExcept (fun sp h => ⟨h, rfl⟩) fun _ _ => by simp) ?_
      rintro sp _ - ⟨hres, rfl⟩
      refine Gen.Leads.bind (Gen.specialize_bounded hb ha (fun r' hr => ?_) hdecl hres
        (fun _ ht => by cases ht) (s.unit.pending_le env.program)) fun _ _ _ _ => .of_ok rfl trivial
      exact Gen.generates hb ha r' (by rwa [← hr])

theorem compileEntryAt_bounded (hb : c.env.program.Everywhere (Node.BuiltIn c.env.program))
    (ha : c.env.program.AppliesAt StaticType.IsArgument)
    (hd : (c.env.program.nodes.size + 1) * c.env.program.specializationBound ≤ depth)
    (func : FuncId) : (c.compileEntryAt depth func).1 ≠ .error .exhausted := by
  have h := entryWithin_bounded hb ha hd { unit := c.unit, frame := .outside } func
  unfold compileEntryAt
  split
  · simp
  · next e s hrun =>
    have he : e ≠ .exhausted := h.error hrun
    simpa using he

theorem compileAllAt_bounded (hb : c.env.program.Everywhere (Node.BuiltIn c.env.program))
    (ha : c.env.program.AppliesAt StaticType.IsArgument)
    (hd : (c.env.program.nodes.size + 1) * c.env.program.specializationBound ≤ depth)
    (funcs : List FuncId) : c.compileAllAt depth funcs ≠ .error .exhausted := by
  induction funcs generalizing c with
  | nil => simp [compileAllAt]
  | cons func rest ih =>
    unfold compileAllAt
    split
    · simp
    · split
      · exact ih hb ha hd
      · have hentry := compileEntryAt_bounded hb ha hd func
        have henv := c.compileEntryAt_env depth func
        split
        · next id c' hc =>
          rw [hc] at henv
          dsimp only at henv
          exact ih (by rwa [henv]) (by rwa [henv]) (by rwa [henv])
        · next e c' hc =>
          rw [hc] at hentry
          simpa using hentry

end Compiler

/-- Compilation with nodes generated up to a depth. -/
def compileAt (depth : Nat) (program : Program) (config : Config) : Except Failure Output := do
  let c ← (Compiler.new program config .standard).compileAllAt depth program.entryPoints
  return {
    module := c.unit.module
    gcRequired := c.unit.gcRequired
    generated := c.unit.generated
    cacheHits := c.unit.cacheHits }

/-- Compilation terminates. If nodes are built after their children and calls pass only closed types
and type parameters, a depth that the size of the program determines is enough, whatever the
recursion between its functions: compilation does not run out of it, and gives the same result at
every greater depth. -/
theorem compile_terminates {p : Program} (hb : p.Everywhere (Node.BuiltIn p))
    (ha : p.AppliesAt StaticType.IsArgument) (config : Config) :
    compile p config ≠ .error .exhausted ∧
      ∀ depth, (p.nodes.size + 1) * p.specializationBound ≤ depth →
        compileAt depth p config = compile p config := by
  let new := Compiler.new p config .standard
  let enough := (p.nodes.size + 1) * p.specializationBound
  have hbounded : new.compileAllAt enough p.entryPoints ≠ .error .exhausted :=
    Compiler.compileAllAt_bounded (c := new) hb ha (Nat.le_refl _) p.entryPoints
  have hsame (depth : Nat) (hd : enough ≤ depth) :
      new.compileAllAt depth p.entryPoints = new.compileAllAt enough p.entryPoints :=
    Compiler.compileAllAt_eq hd hbounded
  have hdepth : enough ≤ p.depthBound :=
    Nat.le_trans (Nat.mul_le_mul_left _ (Nat.le_succ _)) (Nat.le_add_right _ _)
  have hall : new.compileAll p.entryPoints = new.compileAllAt enough p.entryPoints := by
    rw [Compiler.compileAll_eq]
    exact hsame p.depthBound hdepth
  constructor
  · intro he
    unfold compile at he
    rw [show (Compiler.new p config .standard).compileAll p.entryPoints = _ from hall] at he
    cases hc : new.compileAllAt enough p.entryPoints with
    | ok c =>
      rw [hc] at he
      cases he
    | error e =>
      rw [hc] at he
      cases he
      exact hbounded hc
  · intro depth hd
    unfold compile compileAt
    rw [show (Compiler.new p config .standard).compileAll p.entryPoints = _ from hall,
      show (Compiler.new p config .standard).compileAllAt depth p.entryPoints = _ from hsame depth hd]

namespace Relay

/-! Two functions: `function f<T>(x: T): void { f<T>(x); }` and
`function main(): void { f<int>(1); }`. -/

/-- The tree of `{ f<t>(argument); }` with its nodes numbered from `i` on. -/
def argument (i : Nat) (t : StaticType) (form : Form Node) : Node := .mk ⟨i⟩ .dummy t form

def callee (i : Nat) : Node := .mk ⟨i + 1⟩ .dummy .void (.identifier "f")

def call (i : Nat) (t : StaticType) (form : Form Node) : Node :=
  .mk ⟨i + 2⟩ .dummy .void (.call (callee i) [argument i t form] (some ⟨⟨0⟩, [t]⟩))

def statement (i : Nat) (t : StaticType) (form : Form Node) : Node :=
  .mk ⟨i + 3⟩ .dummy .void (.expressionStatement (call i t form))

def body (i : Nat) (t : StaticType) (form : Form Node) : Node :=
  .mk ⟨i + 4⟩ .dummy .void (.block [statement i t form])

def nodes (i : Nat) (t : StaticType) (form : Form Node) : List Node :=
  [argument i t form, callee i, call i t form, statement i t form, body i t form]

def program : Program where
  nodes := (nodes 0 (.param "T") (.identifier "x") ++ nodes 5 .int (.numericLiteral "1")).toArray
  functions := #[
    { name := "f", typeParams := ["T"], params := [{ name := "x", type := .param "T" }], ret := .void
      body := some (body 0 (.param "T") (.identifier "x")) },
    { name := "main", ret := .void, body := some (body 5 .int (.numericLiteral "1")) }]
  entryPoints := [⟨1⟩]

theorem everywhere_body {P : Node → Prop} {i : Nat} {t : StaticType} {form : Form Node}
    (h : ∀ n ∈ nodes i t form, P n) (hform : form.children = []) :
    (body i t form).Everywhere P := by
  have leaf {n : Node} (hn : n ∈ nodes i t form) (hc : n.children = []) : n.Everywhere P :=
    ⟨h n hn, fun c hmem => by rw [hc] at hmem; cases hmem⟩
  have hargument : (argument i t form).Everywhere P := leaf (by simp [nodes]) hform
  have hcallee : (callee i).Everywhere P := leaf (by simp [nodes]) rfl
  have hcall : (call i t form).Everywhere P :=
    ⟨h _ (by simp [nodes]), List.forall_mem_cons.mpr ⟨hcallee, List.forall_mem_singleton.mpr hargument⟩⟩
  have hstatement : (statement i t form).Everywhere P :=
    ⟨h _ (by simp [nodes]), List.forall_mem_singleton.mpr hcall⟩
  exact ⟨h _ (by simp [nodes]), List.forall_mem_singleton.mpr hstatement⟩

theorem everywhere_program {P : Node → Prop}
    (h : ∀ n ∈ program.nodes.toList, P n) : program.Everywhere P := by
  have hsplit : (∀ n ∈ nodes 0 (.param "T") (.identifier "x"), P n) ∧
      ∀ n ∈ nodes 5 .int (.numericLiteral "1"), P n :=
    List.forall_mem_append.mp h
  constructor
  · rintro ⟨i⟩ decl n hf hb
    match i, hf with
    | 0, hf =>
      cases hf
      cases hb
      exact everywhere_body hsplit.1 rfl
    | 1, hf =>
      cases hf
      cases hb
      exact everywhere_body hsplit.2 rfl
  · rintro ⟨i⟩ decl q n hf hq hd
    match i, hf with
    | 0, hf =>
      cases hf
      cases List.mem_singleton.mp hq
      cases hd
    | 1, hf =>
      cases hf
      cases hq

theorem compile_terminates_relay : compile program {} ≠ .error .exhausted ∧
    compileAt 77 program {} = compile program {} := by
  have hb : program.Everywhere (Node.BuiltIn program) := by
    refine everywhere_program fun n hn => ?_
    have hlist : n ∈ nodes 0 (.param "T") (.identifier "x") ∨
        n ∈ nodes 5 .int (.numericLiteral "1") := List.mem_append.mp hn
    simp only [nodes, List.mem_cons, List.not_mem_nil, or_false] at hlist
    rcases hlist with (rfl | rfl | rfl | rfl | rfl) | (rfl | rfl | rfl | rfl | rfl) <;>
      exact ⟨rfl, by decide⟩
  have ha : program.AppliesAt StaticType.IsArgument := by
    refine everywhere_program fun n hn s hs => ?_
    have hlist : n ∈ nodes 0 (.param "T") (.identifier "x") ∨
        n ∈ nodes 5 .int (.numericLiteral "1") := List.mem_append.mp hn
    simp only [nodes, List.mem_cons, List.not_mem_nil, or_false] at hlist
    rcases hlist with (rfl | rfl | rfl | rfl | rfl) | (rfl | rfl | rfl | rfl | rfl) <;> cases hs
    · exact List.forall_mem_singleton.mpr (.inr ⟨"T", rfl⟩)
    · exact List.forall_mem_singleton.mpr (.inl rfl)
  have h := compile_terminates hb ha {}
  exact ⟨h.1, h.2 77 (by decide +kernel)⟩

end Relay

end TypedLowering
