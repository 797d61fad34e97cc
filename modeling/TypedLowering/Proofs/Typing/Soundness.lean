import TypedLowering.Lowering.Compiler
import TypedLowering.Proofs.Typing.Expression
import TypedLowering.Proofs.Typing.Statement

/-!
Compiled modules are well typed. Every generator keeps a typed world typed if its parts and the
bodies of its callees do; this carries over to generation at any depth, to the entry points and to
the whole program.
-/
namespace TypedLowering
set_option autoImplicit false
open Ssa Ssa.Function

/-! ## Nodes -/

namespace Gen

variable {env : Env} {generate : Generate} {n : Node}

/-- One generator: its parts are generated at their types. The object of a method call is a part of
a part. -/
theorem standard_typed {w : TypedWorld env.program} {kind : SyntaxKind} (hg : Sound env generate)
    (hs : n.signatureFits env.program = true)
    (hp : ∀ q c, (q, c) ∈ n.form.parts → Types env generate c)
    (hpp : ∀ q c q' c', (q, c) ∈ n.form.parts → (q', c') ∈ c.form.parts → Types env generate c') :
    Spec env w (standard generate kind n) fun v x => x.Yields v := by
  unfold standard
  cases kind with
  | numericLiteral => exact numericLiteral_typed
  | booleanLiteral => exact booleanLiteral_typed
  | undefinedLiteral => exact undefinedLiteral_typed
  | arrayLiteral => exact arrayLiteral_typed hp
  | identifier => exact identifier_typed
  | this => exact this_typed
  | member => exact member_typed hp
  | index => exact index_typed hp
  | paren => exact paren_typed hp
  | unary => exact unary_typed hp
  | binary => exact binary_typed hp
  | update => exact update_typed hp
  | assign => exact assignment_typed hp
  | conditional => exact conditional_typed hp
  | cast => exact cast_typed hp
  | call =>
    refine call_typed hp hg hs fun callee args s object property hn hc => ?_
    exact hpp .expression callee .expression object (by simp [hn, Form.parts])
      (by simp [hc, Form.parts])
  | construct => exact construct_typed hp hg hs
  | variableDeclaration => exact variableDeclaration_typed hp
  | expressionStatement => exact expressionStatement_typed hp
  | block => exact block_typed hp
  | ifElse => exact ifElse_typed hp
  | whileLoop => exact whileLoop_typed hp
  | doWhile => exact doWhile_typed hp
  | forLoop => exact forLoop_typed hp
  | ret => exact returnStatement_typed hp
  | breakLoop => exact breakLoop_typed
  | continueLoop => exact continueLoop_typed
  | empty => exact .pure fun _ => trivial
  | _ => exact .fail

/-- Functions are generated at their types if the trees of the program are. -/
theorem Sound.of_signaturesFit (hp : env.program.SignaturesFit)
    (h : ∀ n : Node, n.Everywhere (fun n => n.signatureFits env.program = true) →
      Types env generate n) : Sound env generate :=
  fun _ _ hdecl => ⟨fun _ hq _ hd => h _ (hp.default hdecl hq hd), fun _ hb => h _ (hp.body hdecl hb)⟩

theorem generate_typed (hp : env.program.SignaturesFit) (depth : Nat)
    (hn : n.Everywhere fun n => n.signatureFits env.program = true) :
    Types env (Gen.generate depth) n := by
  induction depth generalizing n with
  | zero => exact fun _ => .throw
  | succ depth ih =>
    intro w
    refine .read rfl ?_
    split
    · exact standard_typed (.of_signaturesFit hp fun _ => ih) hn.here
        (fun q c hc => ih (hn.part hc)) fun q c q' c' hc hc' => ih ((hn.part hc).part hc')
    · exact .fail

end Gen

/-! ## Entry points -/

section Export

variable {m : Module} (name : String) (id : FunctionId)

theorem Ssa.Module.prolongs_addExport (m : Module) : m.Prolongs (m.addExport name id) := by
  refine ⟨fun {id' f} hf => ?_, fun hd => hd⟩
  rw [m.function?_addExport, hf]
  split
  · exact ⟨_, rfl, rfl, fun hd => hd⟩
  · exact ⟨f, rfl, .refl f⟩

theorem Ssa.Module.WellTyped.addExport (h : m.WellTyped) : (m.addExport name id).WellTyped := by
  intro id' f hf
  have hm := m.prolongs_addExport name id
  rw [m.function?_addExport] at hf
  split at hf
  · obtain ⟨g, hg, rfl⟩ := Option.map_eq_some_iff.mp hf
    have hexported : Function.WellTyped m { g with linkage := .exported } :=
      (h id' g hg).of_values_eq rfl rfl .inl
    exact hexported.prolong hm
  · exact (h id' f hf).prolong hm

end Export

namespace Compiler

open Gen

theorem entry_typed {env : Env} (hp : env.program.SignaturesFit) {w : TypedUnit env.program}
    (func : FuncId) : Spec env w (entry func) fun _ _ => True := by
  refine .bind functionDecl_unit ?_
  rintro decl _ - ⟨hdecl, rfl⟩
  split
  · exact .internal
  · split
    · exact .internal
    · refine .read rfl (.bind (.ofExcept (Q := fun sp _ => Specialization.Resolves env.program func
        decl [] (decl.params.filter fun q => !q.variadic).length decl.span sp) fun sp hsp =>
        Specialization.resolve_ok hsp) fun sp x _ hsp => ?_)
      have hfunc := hsp.func_eq
      have hsound : Sound env (Gen.generate env.program.depthBound) :=
        .of_signaturesFit hp fun _ => generate_typed hp _
      refine .bind (specialize_unit hsound (by rw [hfunc]; exact hdecl)
        (by rw [hfunc, hsp.typeArgs_eq]; exact hsp)) fun id y _ _ => ?_
      refine .bind (modifyUnit_typed rfl rfl (Module.prolongs_addExport _ _ _) fun _ ht => ?_)
        fun _ _ _ _ => .pure trivial
      exact ht.prolong (Module.prolongs_addExport _ _ _) (ht.wellTyped.addExport _ _) .inl .inl .inl

variable {c c' : Compiler}

theorem compileEntry_typed (hp : c.env.program.SignaturesFit)
    (hr : c.unit.Recorded (fun _ => True) c.env.program)
    (ht : c.unit.Agrees c.env.program → c.unit.Typed) {func : FuncId} {id : FunctionId}
    (h : c.compileEntry func = (.ok id, c')) : c'.env = c.env ∧
      c'.unit.Recorded (fun _ => True) c.env.program ∧
      (c'.unit.Agrees c.env.program → c'.unit.Typed) := by
  unfold compileEntry at h
  split at h
  · next id' s hrun =>
    cases h
    obtain ⟨x, rfl, -, -⟩ := entry_typed hp (w := ⟨c.start, hr, ht⟩) func _ s hrun
    exact ⟨rfl, x.recorded, x.typed⟩
  · cases h

theorem compileAll_typed (hp : c.env.program.SignaturesFit)
    (hr : c.unit.Recorded (fun _ => True) c.env.program)
    (ht : c.unit.Agrees c.env.program → c.unit.Typed) {funcs : List FuncId}
    (h : c.compileAll funcs = .ok c') : c'.unit.Agrees c.env.program → c'.unit.Typed := by
  induction funcs generalizing c with
  | nil =>
    cases h
    exact ht
  | cons func rest ih =>
    unfold compileAll at h
    split at h
    · cases h
    · split at h
      · exact ih hp hr ht h
      · split at h
        · next id c₁ hrun =>
          obtain ⟨henv, hr₁, ht₁⟩ := compileEntry_typed hp hr ht hrun
          rw [← henv] at hp hr₁ ht₁ ⊢
          exact ih hp hr₁ ht₁ h
        · cases h

end Compiler

/-! ## Programs -/

instance (p : Program) (u : UnitState) : Decidable (u.Agrees p) :=
  inferInstanceAs (Decidable (∀ r ∈ u.requests, ∀ r' ∈ u.requests,
    r.specialization.symbol p = r'.specialization.symbol p →
      r.specialization.func = r'.specialization.func ∧
        r.specialization.typeArgs = r'.specialization.typeArgs))

/-- What a program is compiled to is well typed, if calls without a receiver name functions without
one and `new` names functions with one, and if the specializations that were requested under one
symbol are the same. -/
theorem compile_wellTyped {p : Program} {config : Config} (hs : p.SignaturesFit)
    (ha : ∀ c, (Compiler.new p config .standard).compileAll p.entryPoints = .ok c →
      c.unit.Agrees p)
    {out : Output} (h : compile p config = .ok out) : out.module.WellTyped := by
  unfold compile at h
  cases hc : (Compiler.new p config .standard).compileAll p.entryPoints with
  | error e =>
    rw [hc] at h
    cases h
  | ok c =>
    rw [hc] at h
    cases h
    refine (Compiler.compileAll_typed (c := Compiler.new p config .standard) hs
      (.new p config.moduleName) (fun _ => ?_) hc (ha c hc)).wellTyped
    exact {
      wellTyped := fun _ _ hf => by cases hf
      symbols := fun hid => by cases hid
      header := fun hid => by cases hid
      descriptors := fun hcls => by cases hcls }

/-- A program with a call and a `new` that are each requested twice:
`class Cell { value: number; constructor(v: int) { this.value = v; } }`,
`function read(c: Cell): number { return c.value; }` and
`function main(): number { return read(new Cell(1)) + read(new Cell(2)); }`. -/
def cellProgram : Program :=
  let node (t : StaticType) (form : Form Node) : Node := .mk ⟨0⟩ .dummy t form
  let cell : StaticType := .object ⟨0⟩ "Cell"
  let assignment : Node := node .number (.assign none
    (node .number (.member (node cell .this) "value")) (node .int (.identifier "v")))
  let value : Node := node .number (.member (node cell (.identifier "c")) "value")
  let readNew (text : String) : Node :=
    let made : Node := node cell (.construct (node .void (.identifier "Cell"))
      [node .int (.numericLiteral text)] (some ⟨⟨0⟩, []⟩))
    node .number (.call (node .void (.identifier "read")) [made] (some ⟨⟨1⟩, []⟩))
  let sum : Node := node .number (.binary .add (readNew "1") (readNew "2"))
  { functions := #[
      { name := "constructor", ret := .void, owner := some ⟨0⟩
        params := [{ name := "v", type := .int }]
        body := some (node .void (.block [node .void (.expressionStatement assignment)])) },
      { name := "read", ret := .number
        params := [{ name := "c", type := cell }]
        body := some (node .void (.block [node .void (.ret (some value))])) },
      { name := "main", ret := .number
        body := some (node .void (.block [node .void (.ret (some sum))])) }]
    classes := #[{
      name := "Cell"
      fields := [{ name := "value", type := .number }]
      constructor := some ⟨0⟩ }]
    entryPoints := [⟨2⟩] }

/-- Three functions are generated for it, and two requests are answered from the table. -/
theorem compile_cellProgram :
    ((compile cellProgram {}).map fun out => (out.generated, out.cacheHits)).toOption
      = some (3, 2) := by
  decide +kernel

theorem compile_wellTyped_cells : ∃ out, compile cellProgram {} = .ok out ∧
    out.generated = 3 ∧ out.cacheHits = 2 ∧ out.module.WellTyped := by
  have hs : cellProgram.SignaturesFit := Program.everywhere_of_passesWithin 8 (by decide +kernel)
  have ha : ((Compiler.new cellProgram {} .standard).compileAll cellProgram.entryPoints).toOption.all
      (fun c => decide (c.unit.Agrees cellProgram)) = true := by
    decide +kernel
  obtain ⟨out, hc, hcounts⟩ := except_map_ok compile_cellProgram
  obtain ⟨hgenerated, hhits⟩ := Prod.mk.inj hcounts
  refine ⟨out, hc, hgenerated, hhits, compile_wellTyped hs (fun c hrun => ?_) hc⟩
  rw [hrun] at ha
  exact of_decide_eq_true ha

end TypedLowering
