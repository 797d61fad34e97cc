import TypedLowering.Proofs.Coupling.Single
import TypedLowering.Proofs.Lowering.Persistence

/-!
More depth changes nothing but where generation runs out of it: a run that ends otherwise ends in the
same way at every greater depth. So the bound on the depth is no part of the result.
-/
namespace TypedLowering
set_option autoImplicit false
open Ssa

/-- A state at some time of generation. -/
structure Moment where
  state : GenState

instance : CodeWorld Moment where
  state := Moment.state
  le _ _ := True
  le_refl _ := trivial
  le_trans _ _ _ _ _ := trivial

/-- Two runs that do the same. -/
def Moment.outlook : Outlook Moment where
  value := Eq
  attributes := Eq
  storage _ := True
  block _ _ := True
  declared _ i j := i = j
  struct _ i j := i = j
  attributes_none := rfl
  storage_of := fun _ => trivial
  block_mono := fun _ => id
  declared_mono := fun _ => id
  struct_mono := fun _ => id

/-! ## What is alike is the same -/

theorem ClassDescriptor.Alike.eq {d d' : ClassDescriptor} (h : d.Alike Eq d') : d' = d := by
  obtain ⟨l, rfl, rfl⟩ := h
  rfl

theorem ObjectRef.Alike.eq {T : ElementStorage → Prop} {o o' : ObjectRef}
    (h : o.Alike Eq Eq T o') : o' = o := by
  obtain ⟨hk, ha, t⟩ := h
  rw [eq_of_rel ha]
  cases hk with
  | cls hd => rw [hd.eq]
  | array _ => rfl
  | builtin b => rfl

theorem Binding.Alike.eq {b b' : Binding StaticType} (h : b.Alike Eq b') : b' = b := by
  cases h with
  | constant hx t => rw [hx]
  | slot hp lowered t => rw [hp]

theorem Scope.Alike.eq {s s' : Scope String StaticType} (h : Scope.Alike Eq s s') : s' = s := by
  have hb : s.bindings = s'.bindings :=
    (eq_of_forall₂ (h.imp fun _ _ hb => Prod.ext hb.1.symm hb.2.eq.symm)).symm
  obtain ⟨l⟩ := s
  obtain ⟨l'⟩ := s'
  cases hb
  rfl

theorem Frame.Alike.eq {T : ElementStorage → Prop} {f f' : Frame}
    (h : f.Alike (fun t => t) Eq Eq T f')
    (hf : f'.function = f.function) (hs : f'.subst = f.subst) : f' = f := by
  obtain ⟨hblock, hscope, hret, hloops, -, hthis⟩ := h
  obtain ⟨function, block, scope, subst, returnType, this, loops⟩ := f
  obtain ⟨function', block', scope', subst', returnType', this', loops'⟩ := f'
  have hobject : this' = this := by
    cases hthis with
    | none => rfl
    | some ho => rw [ho.eq]
  have hnames : scope' = scope := hscope.eq
  subst hblock hnames hret hloops hf hs hobject
  rfl

namespace Gen

variable {env : Env} {α β : Type} {w : Moment}

/-- Unless the first run ends for lack of depth, the second one ends in the same state and with a
related result. -/
def Outlasts (env : Env) (α : Type) (w : Moment) (V : Moment → α → α → Prop) (m m' : Gen α) : Prop :=
  Leads env w.state m (fun a s => ∃ a', m' env w.state = .ok a' s ∧ V ⟨s⟩ a a')
    fun e s => e = .exhausted ∨ m' env w.state = .error e s

namespace Outlasts

variable {V : Moment → α → α → Prop} {U : Moment → β → β → Prop}

theorem same (m : Gen α) (hV : ∀ x a, V x a a) : Outlasts env α w V m m :=
  .intro (fun a _ hm => ⟨a, hm, hV _ _⟩) fun _ _ hm => .inr hm

protected theorem bind {m m' : Gen α} {f f' : α → Gen β} (hm : Outlasts env α w V m m')
    (hf : ∀ x a a', w ≤ x → V x a a' → Outlasts env β x U (f a) (f' a')) :
    Outlasts env β w U (m >>= f) (m' >>= f') := by
  unfold Outlasts Leads
  rw [run_bind]
  cases h : m env w.state with
  | error e _ =>
    rcases hm.error h with he | he
    · exact .inl he
    · exact .inr (by rw [run_bind, he])
  | ok a t =>
    obtain ⟨a', ha', hV⟩ := hm.ok h
    have hrest := hf ⟨t⟩ a a' trivial hV
    unfold Outlasts Leads at hrest
    rwa [run_bind, ha']

/-- After the same step. -/
theorem after {m : Gen α} {f f' : α → Gen β}
    (hf : ∀ x a, Outlasts env β x U (f a) (f' a)) : Outlasts env β w U (m >>= f) (m >>= f') := by
  refine .bind (V := fun _ => Eq) (.same m fun _ _ => rfl) ?_
  rintro x a _ - rfl
  exact hf x a

theorem steps (env : Env) : Steps Moment.outlook env env (fun t => t) (Outlasts env) where
  similar := .refl env
  hints := rfl
  pure := fun {_ _ _ a a'} hV => .of_ok rfl ⟨a', rfl, hV⟩
  bind := .bind
  throw := fun _ _ => .of_error rfl (.inr rfl)
  reads := .of_ok rfl ⟨env, rfl, rfl, rfl⟩
  frame := .same _ fun _ f => .refl (fun _ => rfl) (fun _ => rfl) (fun _ => trivial) f
  modifyFrame := fun {w g g'} hg hkeep hkeep' => by
    have hf : g' w.state.frame = g w.state.frame :=
      (hg _ _ (.refl (fun _ => rfl) (fun _ => rfl) (fun _ => trivial) w.state.frame)).eq
        ((hkeep' _).1.trans (hkeep _).1.symm) ((hkeep' _).2.2.trans (hkeep _).2.2.symm)
    refine .of_ok rfl ⟨(), ?_, rfl⟩
    show EStateM.Result.ok () { w.state with frame := g' w.state.frame } = _
    rw [hf]
  isTerminated := .same _ fun _ _ => rfl
  emit := fun hd => hd.eq ▸ .same _ fun _ _ => rfl
  emitBinary := fun _ _ _ _ _ hl hr => by
    rw [show _ = _ from hl, show _ = _ from hr]
    exact .same _ fun _ _ => rfl
  emitSelect := fun hc ha hb => by
    rw [show _ = _ from hc, show _ = _ from ha, show _ = _ from hb]
    exact .same _ fun _ _ => rfl
  fieldPtr := fun _ hbase hij => by
    rw [show _ = _ from hbase, show _ = _ from hij]
    exact .same _ fun _ _ => rfl
  emitSlot := fun _ => .same _ fun _ _ => rfl
  terminate := fun ht => ht.eq ▸ .same _ fun _ _ => rfl
  appendBlock := fun _ => .same _ fun _ _ => ⟨rfl, trivial⟩
  positionAt := fun _ => .same _ fun _ _ => rfl
  param := fun _ => rfl
  arrayHeader := .same _ fun _ _ => rfl
  descriptor := fun _ => .same _ fun _ d => ⟨d.layout, rfl, rfl⟩
  callSupport := fun _ _ _ _ _ ha => by
    rw [eq_of_forall₂ ha]
    exact .same _ fun _ _ => rfl
  declareMath := fun _ _ _ _ _ ha => by
    rw [show _ = _ from ha]
    exact .same _ fun _ _ => rfl
  callFunction := fun hij ha hattrs => by
    rw [show _ = _ from hij, eq_of_forall₂ ha, show _ = _ from hattrs]
    exact .same _ fun _ _ => rfl

theorem coupling {Calls : Signature → Prop} {generate generate' : Generate}
    (request : ∀ {w : Moment} {s : Specialization} {signature : Signature} {decl : FunctionDecl}
      {typeArgs : List StaticType} {argCount : Nat} (span : Span) (args : List ValueId),
      Calls signature → env.program.function? signature.func = some decl →
      Specialization.resolve env.program signature.func decl typeArgs argCount span = .ok s →
      Outlasts env ValueId w (fun _ => Eq)
        (do Gen.callFunction (← specialize generate s span) args .none)
        (do Gen.callFunction (← specialize generate' s span) args .none)) :
    Coupling Moment.outlook env env (fun t => t) Calls (fun _ => True) generate generate'
      (Outlasts env) := by
  refine (steps env).coupling rfl (fun _ _ => .same _ fun _ _ => rfl)
    (fun _ _ => .same _ fun _ _ => ⟨rfl, trivial⟩) ?_
  intro w signature s decl typeArgs argCount span args args' hc _ hdecl hres hargs
  rw [eq_of_forall₂ hargs]
  exact request span args hc hdecl hres

variable {generate generate' : Generate}

/-- Requests, if the bodies of the functions are generated alike. -/
theorem specialize {s : Specialization} {span : Span}
    (hbody : ∀ (body : Node) (x : Moment), Outlasts env Unit x (fun _ => Eq)
      (generateBody generate s body span) (generateBody generate' s body span)) :
    Outlasts env FunctionId w (fun _ => Eq) (Gen.specialize generate s span)
      (Gen.specialize generate' s span) := by
  refine after fun x₁ params => after fun x₂ ret => after fun x₃ decl => ?_
  split
  · exact .same _ fun _ _ => rfl
  · next body _ =>
    refine after fun x₄ p => after fun x₅ st => ?_
    split
    · exact .same _ fun _ _ => rfl
    · refine after fun x₆ id => ?_
      refine .bind (V := fun _ => Eq) (after fun x₇ outer => after fun x₈ _ => after fun x₉ b =>
        after fun x₁₀ _ => .bind (V := fun _ => Eq) (hbody body x₁₀) fun y _ _ _ _ => ?_) ?_
      · exact .same _ fun _ _ => rfl
      · exact fun y _ _ _ _ => .same _ fun _ _ => rfl

/-- Bodies, if nodes are generated alike. -/
theorem body (hn : ∀ n : Node, Coupling.Couples Moment.outlook (fun t => t) generate generate'
      (Outlasts env) n) (s : Specialization) (span : Span) (body : Node) :
    Outlasts env Unit w (fun _ => Eq) (generateBody generate s body span)
      (generateBody generate' s body span) := by
  have hc : Coupling Moment.outlook env env (fun t => t) (fun _ => False) (fun _ => True) generate
      generate' (Outlasts env) :=
    coupling fun _ _ hc => hc.elim
  have h := hc.generateBody (w := w) (s := s) rfl rfl rfl
    (List.map_id'' ResolvedParam.retyped_self _).symm (hn body) (fun _ _ d _ => hn d) span
  rwa [Node.retyped_self] at h

/-- The code of every node. -/
theorem nodes (env : Env) : ∀ {depth depth' : Nat}, depth ≤ depth' → ∀ n : Node,
    Coupling.Couples Moment.outlook (fun t => t) (Gen.generate depth) (Gen.generate depth')
      (Outlasts env) n
  | 0, _, _, _ => fun _ => .of_error rfl (.inl rfl)
  | depth + 1, 0, hle, _ => by omega
  | depth + 1, depth' + 1, hle, n => by
    have hn := nodes env (Nat.le_of_succ_le_succ hle)
    have hc : Coupling Moment.outlook env env (fun t => t) (fun _ => True) (fun _ => True)
        (Gen.generate depth) (Gen.generate depth') (Outlasts env) := by
      refine coupling fun {w s} _ _ _ _ span args _ _ _ => ?_
      refine .bind (V := fun _ => Eq) (specialize fun b _ => body hn s span b) ?_
      rintro y callee _ - rfl
      exact .same _ fun _ _ => rfl
    exact hc.generateNode (fun _ _ => trivial) fun c _ => hn c

end Outlasts

end Gen

/-! ## Compilation at a depth -/

namespace Compiler

/-- Compiles an entry point with nodes up to a depth. -/
def compileEntryAt (c : Compiler) (depth : Nat) (func : FuncId) :
    Except Failure FunctionId × Compiler :=
  match (entryWithin (fun _ => depth) func).run c.env { unit := c.unit, frame := .outside } with
  | .ok id s => (.ok id, { c with unit := s.unit })
  | .error e s => (.error e, { c with unit := s.unit })

/-- Compiles entry points in order with nodes up to a depth. -/
def compileAllAt (c : Compiler) (depth : Nat) : List FuncId → Except Failure Compiler
  | [] => .ok c
  | func :: rest =>
    match c.env.program.function? func with
    | none => .error .dangling
    | some decl =>
      if decl.isGeneric then c.compileAllAt depth rest
      else
        match c.compileEntryAt depth func with
        | (.ok _, c) => c.compileAllAt depth rest
        | (.error e, _) => .error e

theorem compileEntry_eq (c : Compiler) (func : FuncId) :
    c.compileEntry func = c.compileEntryAt c.env.program.depthBound func := by
  unfold compileEntry compileEntryAt
  have hrun := entryWithin_run Program.depthBound c.env { unit := c.unit, frame := .outside } func
  rw [entry_eq_entryWithin]
  show (match entryWithin Program.depthBound func c.env { unit := c.unit, frame := .outside } with
    | .ok id s => _
    | .error e s => _) = _
  rw [hrun]
  rfl

theorem compileEntryAt_env (c : Compiler) (depth : Nat) (func : FuncId) :
    (c.compileEntryAt depth func).2.env = c.env := by
  unfold compileEntryAt
  split <;> rfl

theorem compileEntryAt_leads {c : Compiler} {depth : Nat} {func : FuncId}
    {Q : FunctionId → GenState → Prop} {E : Failure → GenState → Prop}
    (h : Gen.Leads c.env { unit := c.unit, frame := .outside } (entryWithin (fun _ => depth) func) Q E) :
    (∃ id s, c.compileEntryAt depth func = (.ok id, { c with unit := s.unit }) ∧ Q id s) ∨
      ∃ e s, c.compileEntryAt depth func = (.error e, { c with unit := s.unit }) ∧ E e s := by
  unfold compileEntryAt
  split
  · next id s hrun => exact .inl ⟨id, s, rfl, h.ok hrun⟩
  · next e s hrun => exact .inr ⟨e, s, rfl, h.error hrun⟩

/-- What every successful call keeps, entry points compiled in order keep. -/
theorem compileAllAt_induction {depth : Nat} {P : List FuncId → Compiler → Prop}
    (passed : ∀ {c done func decl}, P done c → c.env.program.function? func = some decl →
      decl.isGeneric = true → P (done ++ [func]) c)
    (compiled : ∀ {c c' done func decl id}, P done c → c.env.program.function? func = some decl →
      decl.isGeneric = false → c.compileEntryAt depth func = (.ok id, c') → P (done ++ [func]) c')
    {funcs : List FuncId} (done : List FuncId) {c c' : Compiler} (hc : P done c)
    (h : c.compileAllAt depth funcs = .ok c') : P (done ++ funcs) c' := by
  induction funcs generalizing c done with
  | nil =>
    cases h
    rwa [List.append_nil]
  | cons func rest ih =>
    rw [← List.singleton_append, ← List.append_assoc]
    unfold compileAllAt at h
    split at h
    · cases h
    · next decl hdecl =>
      split at h
      · next hg => exact ih _ (passed hc hdecl hg) h
      · next hg =>
        split at h
        · next id c₁ hrun => exact ih _ (compiled hc hdecl (Bool.eq_false_iff.mpr hg) hrun) h
        · cases h

/-- Compiles entry points in order as `compileAll` does. -/
theorem compileAll_eq (c : Compiler) (funcs : List FuncId) :
    c.compileAll funcs = c.compileAllAt c.env.program.depthBound funcs := by
  induction funcs generalizing c with
  | nil => rfl
  | cons func rest ih =>
    unfold compileAll compileAllAt
    cases c.env.program.function? func with
    | none => rfl
    | some decl =>
      dsimp only
      rw [ih c, compileEntry_eq]
      split
      · rfl
      · have henv : (c.compileEntryAt c.env.program.depthBound func).2.env = c.env :=
          c.compileEntryAt_env _ _
        generalize c.compileEntryAt c.env.program.depthBound func = r at henv
        obtain ⟨result, c'⟩ := r
        cases result with
        | error e => rfl
        | ok id =>
          dsimp only at henv ⊢
          rw [ih c', henv]

/-! ## Enough depth -/

variable {c : Compiler} {depth depth' : Nat}

theorem entryWithin_outlasts (env : Env) (hle : depth ≤ depth') (w : Moment) (func : FuncId) :
    Gen.Outlasts env FunctionId w (fun _ => Eq) (entryWithin (fun _ => depth) func)
      (entryWithin (fun _ => depth') func) := by
  refine .after fun x₁ decl => ?_
  split
  · exact .same _ fun _ _ => rfl
  · split
    · exact .same _ fun _ _ => rfl
    · refine .after fun x₂ p => .after fun x₃ s => ?_
      refine .bind (V := fun _ => Eq)
        (.specialize fun b _ => .body (Gen.Outlasts.nodes env hle) s decl.span b) ?_
      rintro y id _ - rfl
      exact .same _ fun _ _ => rfl

theorem compileEntryAt_eq (hle : depth ≤ depth') {func : FuncId}
    (hne : (c.compileEntryAt depth func).1 ≠ .error .exhausted) :
    c.compileEntryAt depth' func = c.compileEntryAt depth func := by
  have h := entryWithin_outlasts c.env hle ⟨{ unit := c.unit, frame := .outside }⟩ func
  have hrun : (entryWithin (fun _ => depth') func).run c.env { unit := c.unit, frame := .outside } =
      (entryWithin (fun _ => depth) func).run c.env { unit := c.unit, frame := .outside } := by
    cases hd : (entryWithin (fun _ => depth) func).run c.env
        { unit := c.unit, frame := .outside } with
    | ok id s =>
      obtain ⟨id', hid', rfl⟩ := h.ok hd
      exact hid'
    | error e s =>
      rcases h.error hd with rfl | he
      · refine (hne ?_).elim
        rw [compileEntryAt, hd]
      · exact he
  rw [compileEntryAt, hrun, compileEntryAt]

/-- What has been compiled at a depth is compiled in the same way at every greater one. -/
theorem compileAllAt_eq (hle : depth ≤ depth') {funcs : List FuncId}
    (hne : c.compileAllAt depth funcs ≠ .error .exhausted) :
    c.compileAllAt depth' funcs = c.compileAllAt depth funcs := by
  induction funcs generalizing c with
  | nil => rfl
  | cons func rest ih =>
    unfold compileAllAt at hne ⊢
    cases hdecl : c.env.program.function? func with
    | none => rfl
    | some decl =>
      rw [hdecl] at hne
      dsimp only at hne ⊢
      by_cases hg : decl.isGeneric = true
      · rw [if_pos hg] at hne ⊢
        rw [if_pos hg]
        exact ih hne
      · rw [if_neg hg] at hne ⊢
        rw [if_neg hg]
        have hentry : (c.compileEntryAt depth func).1 ≠ .error .exhausted := by
          intro he
          apply hne
          generalize c.compileEntryAt depth func = r at he
          obtain ⟨result, c'⟩ := r
          cases he
          rfl
        rw [compileEntryAt_eq hle hentry]
        generalize c.compileEntryAt depth func = r at hne
        obtain ⟨result, c'⟩ := r
        cases result with
        | error e => rfl
        | ok id => exact ih hne

end Compiler

end TypedLowering
