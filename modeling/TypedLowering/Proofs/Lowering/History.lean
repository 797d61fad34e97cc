import Mathlib.Data.List.Induction
import TypedLowering.Proofs.Flow.Completion

/-!
Sequences of entry points compiled on one compiler, where some fail and compilation goes on. A call
that fails leaves behind what it has entered, so a later call may be answered with a definition that
was never finished. What is said here is how far that goes: definitions without an end in some block
come from calls that failed, and a call that has failed in a body succeeds from then on.
-/
namespace TypedLowering
set_option autoImplicit false
open Ssa

namespace Compiler

variable {c : Compiler} {func : FuncId}

/-- The compiler after calls in order, whether they succeed or fail. -/
def after (c : Compiler) (calls : List FuncId) : Compiler :=
  calls.foldl (fun c func => (c.compileEntry func).2) c

/-- The call for an entry point fails. -/
def Fails (c : Compiler) (func : FuncId) : Prop := ∃ e, (c.compileEntry func).1 = .error e

@[simp] theorem after_nil : c.after [] = c := rfl

theorem after_append (c : Compiler) (calls calls' : List FuncId) :
    c.after (calls ++ calls') = (c.after calls).after calls' := List.foldl_append

theorem after_snoc (c : Compiler) (calls : List FuncId) (func : FuncId) :
    c.after (calls ++ [func]) = ((c.after calls).compileEntry func).2 := by
  rw [after_append]
  rfl

@[simp] theorem after_env (calls : List FuncId) : (c.after calls).env = c.env := by
  induction calls generalizing c with
  | nil => rfl
  | cons func rest ih => exact ih.trans (c.compileEntry_env func)

/-! ## What calls keep -/

/-- The state in which an entry point is compiled. -/
def start (c : Compiler) : GenState := { unit := c.unit, frame := .outside }

theorem compileEntry_leads {Q : FunctionId → GenState → Prop} {E : Failure → GenState → Prop}
    (h : Gen.Leads c.env c.start (entry func) Q E) :
    (∃ id s, (c.compileEntry func).1 = .ok id ∧ (c.compileEntry func).2.unit = s.unit ∧ Q id s) ∨
      ∃ e s, (c.compileEntry func).1 = .error e ∧ (c.compileEntry func).2.unit = s.unit ∧ E e s := by
  unfold compileEntry
  split
  · next id s hrun => exact .inl ⟨id, s, rfl, rfl, h.ok hrun⟩
  · next e s hrun => exact .inr ⟨e, s, rfl, rfl, h.error hrun⟩

/-- What every successful call keeps, entry points compiled in order keep. -/
theorem compileAll_induction {P : Compiler → Prop}
    (step : ∀ {c func id}, P c → (c.compileEntry func).1 = .ok id → P (c.compileEntry func).2)
    {funcs : List FuncId} {c c' : Compiler} (hc : P c) (h : c.compileAll funcs = .ok c') : P c' := by
  induction funcs generalizing c with
  | nil =>
    cases h
    exact hc
  | cons func rest ih =>
    unfold compileAll at h
    split at h
    · cases h
    · split at h
      · exact ih hc h
      · split at h
        · next id c₁ hrun =>
          have hstep : P (c.compileEntry func).2 := step hc (by rw [hrun])
          rw [hrun] at hstep
          exact ih hstep h
        · cases h

/-- A unit that has the blocks of the functions and the entries of the table of another. -/
structure Retains (u u' : UnitState) : Prop where
  blocks : ∀ {id f}, u.module.function? id = some f →
    ∃ f', u'.module.function? id = some f' ∧ f'.blocks = f.blocks
  table : ∀ {symbol id}, u.specializations.get? symbol = some id →
    u'.specializations.get? symbol = some id

theorem Retains.trans {u u' u'' : UnitState} (h : Retains u u') (h' : Retains u' u'') :
    Retains u u'' := by
  refine ⟨fun hf => ?_, fun hi => h'.table (h.table hi)⟩
  obtain ⟨f', hf', hb⟩ := h.blocks hf
  obtain ⟨f'', hf'', hb'⟩ := h'.blocks hf'
  exact ⟨f'', hf'', hb'.trans hb⟩

theorem Retains.of_keeps {u u' : UnitState} (h : u.Keeps u' fun _ => False) : Retains u u' :=
  ⟨fun hf => ⟨_, h.functions.kept not_false hf, rfl⟩, h.table⟩

theorem Retains.addExport {u u' : UnitState} (h : Retains u u') (name : String) (id : FunctionId) :
    Retains u { u' with module := u'.module.addExport name id } := by
  refine ⟨fun {id' f} hf => ?_, h.table⟩
  obtain ⟨f', hf', hb⟩ := h.blocks hf
  show ∃ g, (u'.module.addExport name id).function? id' = some g ∧ g.blocks = f.blocks
  rw [Module.function?_addExport, hf']
  split
  · exact ⟨_, rfl, hb⟩
  · exact ⟨_, rfl, hb⟩

/-- The body of an entry point keeps what is not its own. -/
theorem Enters.persists {decl : FunctionDecl} {sp : Specialization}
    (h : Enters c.env.program func decl sp) (span : Span) (depth : Nat) (decl' : FunctionDecl)
    (body : Node) (hdecl : c.env.program.function? sp.func = some decl')
    (hbody : decl'.body = some body) :
    Gen.Persists c.env Unit (Gen.generateBody (Gen.generate depth) sp body span) := by
  have hall : Gen.Pervasive c.env (fun _ => True) (fun _ => True) (Gen.Persists c.env) :=
    Gen.Persists.pervasive
  have hp := c.env.program.appliesAt_trivial
  exact hall.bodyOf hp (hall.generateNode hp depth)
    (h.requested (I := fun _ => True) (s := c.start) trivial) span decl' body hdecl hbody

theorem compileEntry_retains (c : Compiler) (func : FuncId) :
    Retains c.unit (c.compileEntry func).2.unit := by
  have h : Gen.Leads c.env c.start (entry func) (fun _ s => Retains c.unit s.unit)
      fun _ s => Retains c.unit s.unit := by
    refine entry_leads (fun _ _ _ => .of_keeps (.refl _ _)) fun decl sp hsp => ?_
    refine (Gen.Persists.specialize_keeps (hsp.persists _ _) c.start).mono ?_ ?_
    · rintro id s ⟨hkeeps, -⟩
      exact (Retains.of_keeps hkeeps).addExport decl.name id
    · intro _ _ hkeeps
      exact .of_keeps hkeeps
  rcases compileEntry_leads h with ⟨_, s, -, hu, hq⟩ | ⟨_, s, -, hu, hq⟩
  · rw [hu]
    exact hq
  · rw [hu]
    exact hq

theorem after_retains (c : Compiler) (calls : List FuncId) : Retains c.unit (c.after calls).unit := by
  induction calls generalizing c with
  | nil => exact .of_keeps (.refl _ _)
  | cons func rest ih => exact (c.compileEntry_retains func).trans (ih _)

/-! ## Definitions that were not finished -/

/-- A definition that was entered during a call, among those listed, that failed. -/
def Abandoned (c : Compiler) (calls : List FuncId) (id : FunctionId) : Prop :=
  ∃ earlier func later, calls = earlier ++ func :: later ∧ (c.after earlier).Fails func ∧
    (c.after earlier).unit.module.function? id = none ∧
    (c.after (earlier ++ [func])).unit.module.function? id ≠ none

theorem Abandoned.snoc {calls : List FuncId} {id : FunctionId} (h : c.Abandoned calls id)
    (func : FuncId) : c.Abandoned (calls ++ [func]) id := by
  obtain ⟨earlier, func', later, rfl, hfails⟩ := h
  exact ⟨earlier, func', later ++ [func], by simp, hfails⟩

/-- A definition with a block that does not end is abandoned. -/
theorem abandoned_of_not_complete (hr : c.env.registry.IsDiagonal) (hp : c.env.program.Arranged)
    (hc : ∀ id f, c.unit.module.function? id = some f → f.Complete) (calls : List FuncId)
    {id : FunctionId} {f : Function} (hf : (c.after calls).unit.module.function? id = some f)
    (hn : ¬ f.Complete) : c.Abandoned calls id := by
  induction calls using List.reverseRecOn generalizing f with
  | nil => exact (hn (hc id f hf)).elim
  | append_singleton calls func ih =>
    rw [after_snoc] at hf
    cases hold : (c.after calls).unit.module.function? id with
    | some g =>
      -- it was there before this call, which has left its blocks alone
      obtain ⟨f', hf', hb⟩ := ((c.after calls).compileEntry_retains func).blocks hold
      cases hf.symm.trans hf'
      exact (ih hold fun hg => hn (hg.of_blocks_eq hb)).snoc func
    | none =>
      cases hres : ((c.after calls).compileEntry func).1 with
      | error e =>
        refine ⟨calls, func, [], rfl, ⟨e, hres⟩, hold, ?_⟩
        rw [after_snoc, hf]
        simp
      | ok id' =>
        have hcompletes := compileEntry_completes (c := c.after calls)
          (by rw [after_env]; exact hr) (by rw [after_env]; exact hp) func
        rcases hcompletes.2 id' hres hf with h | ⟨g, hg, -⟩
        · exact (hn h).elim
        · cases hold.symm.trans hg

/-! ## Calls after a failure -/

theorem Enters.unique {p : Program} {decl decl' : FunctionDecl} {sp sp' : Specialization}
    (h : Enters p func decl sp) (h' : Enters p func decl' sp') : decl' = decl ∧ sp' = sp := by
  cases h.function.symm.trans h'.function
  cases h.resolve.symm.trans h'.resolve
  exact ⟨rfl, rfl⟩

/-- What a call comes to if its entry point is not refused: the table answers, or the body is
generated. -/
theorem Enters.leads {decl : FunctionDecl} {sp : Specialization}
    (h : Enters c.env.program func decl sp) {Q : FunctionId → GenState → Prop}
    {E : Failure → GenState → Prop}
    (cached : ∀ id s, c.unit.specializations.get? (sp.symbol c.env.program) = some id → Q id s)
    (fresh : ∀ body params ret,
      c.unit.specializations.get? (sp.symbol c.env.program) = none →
      c.env.program.function? sp.func = some decl → decl.body = some body →
      Gen.Leads c.env (c.start.started sp (sp.symbol c.env.program) params ret)
        (Gen.generateBody (Gen.generate c.env.program.depthBound) sp body decl.span)
        (fun _ _ => ∀ s', Q c.unit.module.nextFunction s') E) :
    Gen.Leads c.env c.start (entry func) Q E := by
  have hres := Specialization.resolve_ok h.resolve
  have hfunc : c.env.program.function? sp.func = some decl := by
    rw [hres.func_eq]
    exact h.function
  refine entry_leads (fun hrefused => (hrefused decl sp h).elim) fun decl' sp' h' => ?_
  obtain ⟨rfl, rfl⟩ := h.unique h'
  refine Gen.specialize_leads ?_ ?_ ?_ ?_
  · intro hrefused
    obtain ⟨params, ret, hparams, hret⟩ := hres.exists_lowered decl'.span
    exact (hrefused ⟨params, ret, decl', hparams, hret, hfunc⟩).elim
  · intro decl'' _ _ hdecl'' hbody _ _
    cases hfunc.symm.trans hdecl''
    have hsome := h.hasBody
    rw [hbody] at hsome
    cases hsome
  · intro _ _ _ id _ _ _ hid
    exact cached id _ hid
  · intro decl'' body params ret hdecl'' hbody _ _ hnone
    cases hfunc.symm.trans hdecl''
    exact (fresh body params ret hnone hfunc hbody).mono (fun _ _ hq => hq _) fun _ _ he => he

/-- An entry point that the table has is compiled at once. -/
theorem not_fails_of_table {decl : FunctionDecl} {sp : Specialization}
    (h : Enters c.env.program func decl sp) {id : FunctionId}
    (hid : c.unit.specializations.get? (sp.symbol c.env.program) = some id) : ¬ c.Fails func := by
  have hleads : Gen.Leads c.env c.start (entry func) (fun _ _ => True) fun _ _ => False := by
    refine h.leads (fun _ _ _ => trivial) fun _ _ _ hnone => ?_
    cases hnone.symm.trans hid
  rintro ⟨e, he⟩
  rcases compileEntry_leads hleads with ⟨id', _, hok, -⟩ | ⟨_, _, _, _, hfalse⟩
  · cases hok.symm.trans he
  · exact hfalse

/-- A call that fails although the entry point is not refused has entered it. -/
theorem Fails.table {decl : FunctionDecl} {sp : Specialization} (hfails : c.Fails func)
    (h : Enters c.env.program func decl sp) : ∃ id,
      (c.compileEntry func).2.unit.specializations.get? (sp.symbol c.env.program) = some id := by
  have hleads : Gen.Leads c.env c.start (entry func) (fun _ _ => True) fun _ s =>
      ∃ id, s.unit.specializations.get? (sp.symbol c.env.program) = some id := by
    refine h.leads (fun _ _ _ => trivial) fun body params ret _ hdecl hbody => ?_
    refine (h.persists _ _ decl body hdecl hbody _).mono (fun _ _ _ _ => trivial) fun _ s hkeeps => ?_
    exact ⟨_, hkeeps.table (Dict.get?_insert_self _ _ _)⟩
  obtain ⟨e, he⟩ := hfails
  rcases compileEntry_leads hleads with ⟨id, _, hok, -⟩ | ⟨_, s, -, hu, hid⟩
  · cases hok.symm.trans he
  · rw [hu]
    exact hid

theorem fails_of_refused (h : ∀ decl sp, ¬ Enters c.env.program func decl sp) : c.Fails func := by
  have hleads : Gen.Leads c.env c.start (entry func) (fun _ _ => False) fun _ _ => True :=
    entry_leads (fun _ _ _ => trivial) fun decl sp hsp => (h decl sp hsp).elim
  rcases compileEntry_leads hleads with ⟨_, _, _, _, hfalse⟩ | ⟨e, _, he, -⟩
  · exact hfalse.elim
  · exact ⟨e, he⟩

/-- After a call has failed, the same call fails again exactly if its entry point is refused: what
failed in a body is taken for compiled from then on. -/
theorem fails_again_iff {earlier later : List FuncId} (h : (c.after earlier).Fails func) :
    (c.after (earlier ++ func :: later)).Fails func ↔
      ∀ decl sp, ¬ Enters c.env.program func decl sp := by
  constructor
  · intro hagain decl sp hsp
    have hsp : Enters (c.after earlier).env.program func decl sp := by
      rw [after_env]
      exact hsp
    obtain ⟨id, hid⟩ := h.table hsp
    rw [after_append] at hagain
    have hsp' : Enters ((c.after earlier).after (func :: later)).env.program func decl sp := by
      rw [after_env]
      exact hsp
    have hid' : ((c.after earlier).after (func :: later)).unit.specializations.get?
        (sp.symbol ((c.after earlier).after (func :: later)).env.program) = some id := by
      rw [after_env]
      exact (((c.after earlier).compileEntry func).2.after_retains later).table hid
    exact not_fails_of_table hsp' hid' hagain
  · intro hrefused
    exact fails_of_refused (by rw [after_env]; exact hrefused)

end Compiler

/-- Entry points compiled one after the other on one compiler, going on after failures. When a call
succeeds, every definition with a block that does not end was entered by an earlier call that failed;
and a call that has failed before succeeds exactly if its entry point can be specialized at all. -/
theorem compileEntry_after_failures {p : Program} (hp : p.Arranged) {registry : Registry}
    (hr : registry.IsDiagonal) (config : Config) (calls : List FuncId) (func : FuncId) :
    let new := Compiler.new p config registry
    let c := new.after calls
    (∀ id, (c.compileEntry func).1 = .ok id → ∀ g f block,
      (c.compileEntry func).2.unit.module.function? g = some f → block ∈ f.blocks →
        block.terminator = none → new.Abandoned calls g) ∧
    ∀ earlier later, calls = earlier ++ func :: later → (new.after earlier).Fails func →
      ((∃ id, (c.compileEntry func).1 = .ok id) ↔ ∃ decl sp, Compiler.Enters p func decl sp) := by
  intro new c
  have henv : c.env = new.env := Compiler.after_env calls
  refine ⟨fun id hid g f block hg hb hterm => ?_, ?_⟩
  · have hn : ¬ f.Complete := by
      intro hcomplete
      have hsome := hcomplete.isSome_terminator hb
      rw [hterm] at hsome
      cases hsome
    have hcompletes := Compiler.compileEntry_completes (c := c) (by rw [henv]; exact hr)
      (by rw [henv]; exact hp) func
    rcases hcompletes.2 id hid hg with h | ⟨old, hold, hblocks⟩
    · exact (hn h).elim
    · exact Compiler.abandoned_of_not_complete (c := new) hr hp (by intro id f hf; cases hf) calls hold
        fun h => hn (h.of_blocks_eq hblocks)
  · rintro earlier later rfl hfails
    have hiff : c.Fails func ↔ ∀ decl sp, ¬ Compiler.Enters p func decl sp :=
      Compiler.fails_again_iff hfails
    constructor
    · rintro ⟨id, hid⟩
      by_contra hnone
      obtain ⟨e, he⟩ := hiff.mpr fun decl sp h => hnone ⟨decl, sp, h⟩
      cases hid.symm.trans he
    · rintro ⟨decl, sp, h⟩
      cases hres : (c.compileEntry func).1 with
      | ok id => exact ⟨id, rfl⟩
      | error e => exact (hiff.mp ⟨e, hres⟩ decl sp h).elim

/-- `function f(): void { "x"; }`, whose body is rejected. -/
def rejectedProgram : Program :=
  let node (form : Form Node) : Node := .mk ⟨0⟩ .dummy .void form
  { functions := #[{
      name := "f"
      ret := .void
      body := some (node (.block [node (.expressionStatement (node (.stringLiteral "x")))])) }]
    entryPoints := [⟨0⟩] }

theorem enters_rejectedProgram : ∃ decl sp, Compiler.Enters rejectedProgram ⟨0⟩ decl sp :=
  ⟨_, _, rfl, rfl, rfl, rfl⟩

/-- The first call for its entry point fails. -/
theorem fails_rejectedProgram : (Compiler.new rejectedProgram {} .standard).Fails ⟨0⟩ := by
  have hfirst : (((Compiler.new rejectedProgram {} .standard).compileEntry ⟨0⟩).1.toOption).isNone
      = true := by decide +kernel
  cases he : ((Compiler.new rejectedProgram {} .standard).compileEntry ⟨0⟩).1 with
  | error e => exact ⟨e, he⟩
  | ok id =>
    rw [he] at hfirst
    cases hfirst

/-- The second one leaves its function with a block that has no end. -/
theorem terminators_rejectedProgram :
    ((((Compiler.new rejectedProgram {} .standard).after [⟨0⟩]).compileEntry
      ⟨0⟩).2.unit.module.function? ⟨0⟩).map (fun f => f.blocks.toList.map (·.terminator))
      = some [none] := by
  decide +kernel

/-- The second call succeeds with a definition that the first has abandoned. -/
theorem compileEntry_after_failures_rejected :
    (Compiler.new rejectedProgram {} .standard).Fails ⟨0⟩ ∧
      (∃ id, (((Compiler.new rejectedProgram {} .standard).after [⟨0⟩]).compileEntry ⟨0⟩).1
        = .ok id) ∧ (Compiler.new rejectedProgram {} .standard).Abandoned [⟨0⟩] ⟨0⟩ := by
  have hp : rejectedProgram.Arranged := Program.arranged_of_arrangedWithin 4 (by decide +kernel)
  have hmain := compileEntry_after_failures hp Registry.isDiagonal_standard {} [⟨0⟩] ⟨0⟩
  have hfails := fails_rejectedProgram
  have hends := terminators_rejectedProgram
  generalize Compiler.new rejectedProgram {} .standard = new at hmain hfails hends ⊢
  obtain ⟨id, hid⟩ := (hmain.2 [] [] rfl hfails).mpr enters_rejectedProgram
  obtain ⟨f, hf, hblocks⟩ := Option.map_eq_some_iff.mp hends
  obtain ⟨block, hlist, hterm⟩ := List.map_eq_singleton_iff.mp hblocks
  have hmem : block ∈ f.blocks := by
    rw [← Array.mem_toList_iff, hlist]
    exact List.mem_singleton_self block
  exact ⟨hfails, ⟨id, hid⟩, hmain.1 id hid ⟨0⟩ f block hf hmem hterm⟩

end TypedLowering
