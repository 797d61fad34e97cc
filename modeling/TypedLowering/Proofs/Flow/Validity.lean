import TypedLowering.Lowering.Compiler
import TypedLowering.Proofs.Flow.Statement
import TypedLowering.Proofs.Source.Placement

/-!
Validity of compiled programs. By induction on the depth of generation, every well-placed node is
generated as its position asks for; so every function of a compiled program has a valid body.
-/
namespace TypedLowering
set_option autoImplicit false
open Ssa Ssa.Function

/-! ## Generation of placed nodes -/

/-- Every node is generated as its position asks for. -/
structure Generate.Sound (env : Env) (generate : Generate) : Prop where
  expression : ∀ {n}, Node.Placed .expression n → Gen.Yields env generate n
  statement : ∀ {n}, Node.Placed .statement n → Gen.Runs env generate n
  item : ∀ {n}, Node.Placed .item n → Gen.Settles env generate n
  init : ∀ {n}, Node.Placed .init n → Gen.Introduces env generate n

/-- Each kind is handled by the generator made for it, if at all. -/
def Registry.IsDiagonal (r : Registry) : Prop := ∀ k k', r.get? k = some k' → k' = k

namespace Registry

theorem isDiagonal_register {r : Registry} (h : r.IsDiagonal) (k : SyntaxKind) :
    (r.register k k).IsDiagonal := by
  intro k₁ k₂ h₁
  unfold get? register at h₁
  by_cases hk : k = k₁
  · subst hk
    rw [Dict.get?_insert_self] at h₁
    exact (Option.some.inj h₁).symm
  · rw [Dict.get?_insert_of_ne _ _ hk] at h₁
    exact h k₁ k₂ h₁

theorem isDiagonal_foldl {r : Registry} (h : r.IsDiagonal) (kinds : List SyntaxKind) :
    (kinds.foldl (fun r k => r.register k k) r).IsDiagonal := by
  induction kinds generalizing r with
  | nil => exact h
  | cons k rest ih => exact ih (isDiagonal_register h k)

theorem isDiagonal_standard : standard.IsDiagonal := by
  refine isDiagonal_foldl ?_ compiledKinds
  intro k k' h
  cases h

end Registry

namespace Gen

variable {env : Env} {generate : Generate}

theorem Callable.of_sound (hp : env.program.Placed) (hg : Generate.Sound env generate)
    (func : FuncId) : Callable env generate func := by
  intro decl hdecl
  refine ⟨?_, ?_⟩
  · intro q hq d hd
    exact hg.expression (hp.default hdecl hq hd)
  · intro body hb
    exact hg.item (hp.body hdecl hb)

variable {n : Node} {w : Site}

theorem standard_expression (hp : env.program.Placed) (hg : Generate.Sound env generate)
    (hn : Node.Placed .expression n) :
    Spec env w (standard generate n.kind n) fun v x => x.Holds v := by
  have part {c : Node} (hc : (Position.expression, c) ∈ n.form.parts) : Yields env generate c :=
    hg.expression (hn.part hc)
  have callable := Callable.of_sound hp hg
  unfold standard
  have ha := hn.admits
  generalize hk : n.kind = k at ha
  cases k with
  | numericLiteral => exact numericLiteral_spec
  | booleanLiteral => exact booleanLiteral_spec
  | undefinedLiteral => exact undefinedLiteral_spec
  | arrayLiteral => exact arrayLiteral_spec fun elements he a h => part (by simp [he, Form.parts, h])
  | identifier => exact identifier_spec
  | this => exact this_spec
  | member => exact member_spec fun o p he => part (by simp [he, Form.parts])
  | index =>
    exact index_spec fun o i he => ⟨part (by simp [he, Form.parts]), part (by simp [he, Form.parts])⟩
  | paren => exact paren_spec fun e he => part (by simp [he, Form.parts])
  | unary => exact unary_spec fun op e he => part (by simp [he, Form.parts])
  | binary =>
    exact binary_spec fun op l r he =>
      ⟨part (by simp [he, Form.parts]), part (by simp [he, Form.parts])⟩
  | update => exact update_spec fun op b t he => part (by simp [he, Form.parts])
  | assign =>
    exact assignment_spec fun op t v he =>
      ⟨part (by simp [he, Form.parts]), part (by simp [he, Form.parts])⟩
  | conditional =>
    exact conditional_spec fun c t e he => ⟨part (by simp [he, Form.parts]),
      part (by simp [he, Form.parts]), part (by simp [he, Form.parts])⟩
  | cast => exact cast_spec fun e he => part (by simp [he, Form.parts])
  | call =>
    refine call_spec ?_ (fun c args s he a h => part (by simp [he, Form.parts, h])) callable
    intro callee args s object property he ho
    have hcallee : Node.Placed .expression callee := hn.part (by simp [he, Form.parts])
    exact hg.expression (hcallee.part (by simp [ho, Form.parts]))
  | construct =>
    exact construct_spec (fun c args s he a h => part (by simp [he, Form.parts, h])) callable
  | variableDeclaration | expressionStatement | block | ifElse | whileLoop | doWhile | forLoop
  | ret | breakLoop | continueLoop | empty => cases ha
  | _ => exact .fail

theorem standard_statement (hg : Generate.Sound env generate) (hn : Node.Placed .statement n) :
    Spec env w.toWorld (standard generate n.kind n) fun _ _ => True := by
  have expression {c : Node} (hc : (Position.expression, c) ∈ n.form.parts) :
      Yields env generate c := hg.expression (hn.part hc)
  have statement {c : Node} (hc : (Position.statement, c) ∈ n.form.parts) :
      Runs env generate c := hg.statement (hn.part hc)
  unfold standard
  have ha := hn.admits
  generalize hk : n.kind = k at ha
  cases k with
  | expressionStatement =>
    intro v s hs
    obtain ⟨x, hx, hwx, -⟩ := expressionStatement_spec (w := w)
      (fun e he => expression (by simp [he, Form.parts])) v s hs
    exact ⟨x.toWorld, hx, hwx, trivial⟩
  | block =>
    exact block_spec fun body he m hm => hg.item (hn.part (by simp [he, Form.parts, hm]))
  | ifElse =>
    exact ifElse_spec fun c t e he => ⟨expression (by simp [he, Form.parts]),
      statement (by simp [he, Form.parts]), fun m hm => statement (by simp [he, Form.parts, hm])⟩
  | whileLoop =>
    exact whileLoop_spec fun c b he =>
      ⟨expression (by simp [he, Form.parts]), statement (by simp [he, Form.parts])⟩
  | doWhile =>
    exact doWhile_spec fun b c he =>
      ⟨statement (by simp [he, Form.parts]), expression (by simp [he, Form.parts])⟩
  | forLoop =>
    exact forLoop_spec fun i c u b he =>
      ⟨fun m hm => hg.init (hn.part (by simp [he, Form.parts, hm])),
        fun m hm => expression (by simp [he, Form.parts, hm]),
        fun m hm => expression (by simp [he, Form.parts, hm]), statement (by simp [he, Form.parts])⟩
  | ret => exact returnStatement_spec fun v he => expression (by simp [he, Form.parts])
  | breakLoop => exact breakLoop_spec
  | continueLoop => exact continueLoop_spec
  | empty => exact .pure trivial
  | forIn | forOf | switch | tryCatch | throw | labeled => exact .fail
  | _ => cases ha

theorem standard_declaration (hg : Generate.Sound env generate) {p : Position}
    (hn : Node.Placed p n) (hk : n.kind = .variableDeclaration) {v : Value} {s : GenState}
    (hs : standard generate n.kind n env w.state = .ok v s) :
    ∃ x : Site, x.state = s ∧ w.Later x.toWorld := by
  rw [hk] at hs
  refine variableDeclaration_later ?_ hs
  intro name init mutable he
  exact hg.expression (hn.part (by simp [he, Form.parts]))

/-- A generated node went through the generator made for its kind. -/
theorem generate_succ_ok (hr : env.registry.IsDiagonal) {depth : Nat} {s s' : GenState} {v : Value}
    (h : Gen.generate (depth + 1) n env s = .ok v s') :
    standard (Gen.generate depth) n.kind n env s = .ok v s' := by
  obtain ⟨env', s₁, h₁, h⟩ := bind_ok h
  cases h₁
  cases hk : env.registry.get? n.kind with
  | none =>
    rw [hk] at h
    exact (fail_ok h).elim
  | some kind =>
    rw [hk] at h
    rw [hr n.kind kind hk] at h
    exact h

theorem generate_sound (hr : env.registry.IsDiagonal) (hp : env.program.Placed) (depth : Nat) :
    Generate.Sound env (Gen.generate depth) := by
  induction depth with
  | zero =>
    exact {
      expression := fun _ _ _ _ h => (throw_ok h).elim
      statement := fun _ _ _ _ h => (throw_ok h).elim
      item := fun _ _ _ _ h => (throw_ok h).elim
      init := fun _ _ _ _ h => (throw_ok h).elim }
  | succ depth ih =>
    have expression {n : Node} (hn : Node.Placed .expression n) :
        Yields env (Gen.generate (depth + 1)) n :=
      fun w v s h => standard_expression hp ih hn v s (generate_succ_ok hr h)
    have statement {n : Node} (hn : Node.Placed .statement n) :
        Runs env (Gen.generate (depth + 1)) n :=
      fun w v s h => standard_statement ih hn v s (generate_succ_ok hr h)
    have declaration {n : Node} {p : Position} (hn : Node.Placed p n)
        (hk : n.kind = .variableDeclaration) : Introduces env (Gen.generate (depth + 1)) n :=
      fun w v s h => standard_declaration ih hn hk (generate_succ_ok hr h)
    refine { expression := expression, statement := statement, item := ?_, init := ?_ }
    · intro n hn
      by_cases hk : n.kind = .variableDeclaration
      · exact (declaration hn hk).settles
      · have ha : Position.item.admits n.kind = true := hn.admits
        exact (statement (.mk (by simpa [Position.admits, hk] using ha)
          fun q c => hn.part)).settles
    · intro n hn
      by_cases hk : n.kind = .variableDeclaration
      · exact declaration hn hk
      · have ha : Position.init.admits n.kind = true := hn.admits
        exact (expression (.mk (by simpa [Position.admits, hk] using ha)
          fun q c => hn.part)).introduces

end Gen

/-! ## Modules -/

namespace Ssa.Function

theorem Flow.relink {f : Function} {A : Heads} (hf : f.Flow A) (l : Linkage) :
    ({ f with linkage := l } : Function).Flow A where
  shaped := ⟨hf.shaped.entry, hf.shaped.room⟩
  params := hf.params
  placed := hf.placed
  nodup := hf.nodup
  once := hf.once
  slot := hf.slot
  slots_nodup := hf.slots_nodup
  slot_apart := hf.slot_apart
  head := hf.head
  entry_head := hf.entry_head
  ordered := hf.ordered
  arms := hf.arms
  phis := hf.phis
  leave := hf.leave

theorem Settled.relink {f : Function} (hf : f.Settled) (l : Linkage) :
    ({ f with linkage := l } : Function).Settled := by
  rcases hf with hf | ⟨A, hf⟩
  · exact .inl hf
  · exact .inr ⟨A, hf.relink l⟩

/-- Where there is no block there is nothing to be valid. -/
theorem valid_of_no_blocks {f : Function} (h : f.blocks.size = 0) : f.Valid := by
  have noBlock (b : BlockId) : ¬ f.HasBlock b := by
    unfold HasBlock
    omega
  have noInst {b : BlockId} {i : Nat} {v : ValueId} (hi : f.InstAt b i v) : False := by
    obtain ⟨block, hb, -⟩ := hi
    exact noBlock b (Array.getElem?_eq_some_iff.mp hb).1
  have noExit {b : BlockId} {t : Terminator} (ht : f.exit b = some t) : False :=
    noBlock b (hasBlock_of_exit ht)
  exact {
    single := fun hi => (noInst hi).elim
    defined := fun hi => (noInst hi).elim
    operands := fun hi => (noInst hi).elim
    exit_operands := fun ht => (noExit ht).elim
    targets := fun ht => (noExit ht).elim
    uses := fun hi => (noInst hi).elim
    exit_uses := fun ht => (noExit ht).elim
    arms := fun hi => (noInst hi).elim
    predecessors := fun hi => (noInst hi).elim
    entry_free := by
      rintro b ⟨t, ht, -⟩
      exact noExit ht }

theorem Settled.valid {f : Function} (hf : f.Settled) : f.Valid := by
  rcases hf with hf | ⟨A, hf⟩
  · exact valid_of_no_blocks hf
  · exact hf.valid

end Ssa.Function

/-- Every function of the module is settled. -/
def Ssa.Module.AllSettled (m : Module) : Prop := ∀ id f, m.function? id = some f → f.Settled

theorem Ssa.Module.AllSettled.extends {m m' : Module} (h : m.AllSettled)
    (he : m.Extends m' fun _ => False) : m'.AllSettled := by
  intro id f hf
  rcases he.added (fun h => h) hf with hf | hf
  · exact h id f hf
  · exact hf

theorem Ssa.Module.AllSettled.addExport {m : Module} (h : m.AllSettled) (name : String)
    (id : FunctionId) : (m.addExport name id).AllSettled := by
  intro id' f hf
  rw [Module.function?_addExport] at hf
  split at hf
  · obtain ⟨g, hg, rfl⟩ := Option.map_eq_some_iff.mp hf
    exact (h id' g hg).relink _
  · exact h id' f hf

namespace Compiler

variable {env : Env}

theorem entry_settled (hr : env.registry.IsDiagonal) (hp : env.program.Placed) {func : FuncId}
    {s s' : GenState} {id : FunctionId} (hs : s.unit.module.AllSettled)
    (h : entry func env s = .ok id s') : s'.unit.module.AllSettled := by
  obtain ⟨decl, s₁, h₁, h⟩ := Gen.bind_ok h
  obtain ⟨x₁, rfl, hx₁, hdecl⟩ := Gen.functionDecl_outside (w := ⟨s⟩) decl s₁ h₁
  split at h
  · exact (Gen.internal_ok h).elim
  · split at h
    · exact (Gen.internal_ok h).elim
    · obtain ⟨p, s₂, h₂, h⟩ := Gen.bind_ok h
      cases h₂
      obtain ⟨sp, s₃, h₃, h⟩ := Gen.bind_ok h
      obtain ⟨hsp, rfl⟩ := Gen.ofExcept_ok h₃
      have hsp := Specialization.resolve_ok hsp
      obtain ⟨id', s₄, h₄, h⟩ := Gen.bind_ok h
      have hf := hsp.func_eq
      obtain ⟨x₂, rfl, hx₂, -⟩ := Gen.specialize_spec (w := x₁)
        (Gen.Callable.of_sound hp (Gen.generate_sound hr hp _) _) (by rw [hf]; exact hdecl)
        (by rw [hf]; exact hsp) id' s₄ h₄
      cases h
      exact ((hs.extends hx₁.2).extends hx₂.2).addExport decl.name _

theorem compileEntry_settled {c c' : Compiler} (hr : c.env.registry.IsDiagonal)
    (hp : c.env.program.Placed) (hc : c.unit.module.AllSettled) {func : FuncId} {id : FunctionId}
    (h : c.compileEntry func = (.ok id, c')) : c'.env = c.env ∧ c'.unit.module.AllSettled := by
  unfold compileEntry at h
  split at h
  · next id' s hrun =>
    cases h
    exact ⟨rfl, entry_settled hr hp hc hrun⟩
  · cases h

theorem compileAll_settled {c c' : Compiler} (hr : c.env.registry.IsDiagonal)
    (hp : c.env.program.Placed) (hc : c.unit.module.AllSettled) {funcs : List FuncId}
    (h : c.compileAll funcs = .ok c') : c'.unit.module.AllSettled := by
  induction funcs generalizing c with
  | nil =>
    cases h
    exact hc
  | cons func rest ih =>
    unfold compileAll at h
    split at h
    · cases h
    · split at h
      · exact ih hr hp hc h
      · split at h
        · next id c₁ hrun =>
          obtain ⟨henv, hc₁⟩ := compileEntry_settled hr hp hc hrun
          exact ih (by rw [henv]; exact hr) (by rw [henv]; exact hp) hc₁ h
        · cases h

end Compiler

/-- In a compiled program every function has a valid body: operands are in range, definitions
dominate their uses, phis have one arm for each predecessor, and nothing leads to the entry. -/
theorem compile_valid {p : Program} {config : Config} {out : Output} (hp : p.Placed)
    (h : compile p config = .ok out) {id : FunctionId} {f : Function}
    (hf : (id, f) ∈ out.module.definitions) : f.Valid := by
  unfold compile at h
  obtain ⟨c, hc, h⟩ := except_bind_ok h
  cases h
  have hs := Compiler.compileAll_settled (c := Compiler.new p config .standard)
    Registry.isDiagonal_standard hp (by intro id f hf; cases hf) hc
  have hf := (List.mem_filter.mp hf).1
  obtain ⟨⟨g, i⟩, hg, he⟩ := List.mem_map.mp hf
  cases he
  have hget := List.mem_zipIdx_iff_getElem?.mp hg
  exact (hs ⟨i⟩ f (by simpa [Module.function?] using hget)).valid

/-- A program whose function returns `true && false`. -/
def conjunctionProgram : Program :=
  let node (t : StaticType) (form : Form Node) : Node := .mk ⟨0⟩ .dummy t form
  let literal (b : Bool) : Node := node .boolean (.booleanLiteral b)
  { functions := #[{
      name := "main"
      ret := .boolean
      body := some (node .void (.ret (some (node .boolean
        (.binary .and (literal true) (literal false)))))) }]
    entryPoints := [⟨0⟩] }

theorem placed_conjunctionProgram : conjunctionProgram.Placed where
  body := by
    rintro ⟨i⟩ decl n hd hb
    cases i with
    | zero =>
      cases hd
      cases hb
      refine .mk rfl fun q c hc => ?_
      cases List.mem_singleton.mp hc
      refine .mk rfl fun q c hc => ?_
      have leaf (b : Bool) : Node.Placed .expression
          (.mk ⟨0⟩ .dummy .boolean (.booleanLiteral b)) := .mk rfl (by simp [Node.form, Form.parts])
      rcases List.mem_cons.mp hc with h | h
      · cases h
        exact leaf true
      · cases List.mem_singleton.mp h
        exact leaf false
    | succ i => cases hd
  default := by
    rintro ⟨i⟩ decl q n hd hq
    cases i with
    | zero =>
      cases hd
      cases hq
    | succ i => cases hd

theorem compile_conjunctionProgram :
    ((compile conjunctionProgram {}).map fun out => out.module.definitions.length).toOption
      = some 1 := by
  decide +kernel

theorem compile_valid_conjunction : ∃ out id f, compile conjunctionProgram {} = .ok out ∧
    (id, f) ∈ out.module.definitions ∧ f.Valid := by
  obtain ⟨out, hc, hlen⟩ := except_map_ok compile_conjunctionProgram
  obtain ⟨⟨id, f⟩, hd⟩ := List.length_eq_one_iff.mp hlen
  have hmem : (id, f) ∈ out.module.definitions := by simp [hd]
  exact ⟨out, id, f, hc, hmem, compile_valid placed_conjunctionProgram hc hmem⟩

end TypedLowering
