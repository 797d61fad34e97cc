import TypedLowering.Proofs.Ssa.Body

/-!
The flow graph of a function, dominance along its walks, and what makes a body a valid one: every
operand is defined once, at a place that dominates the use, and every phi has one arm for each
block that leads to it.
-/
namespace TypedLowering.Ssa
set_option autoImplicit false

namespace Function

/-! ## The flow graph -/

/-- The block that a call starts in. -/
def entry : BlockId := ⟨0⟩

/-- Control can pass from one block to the other. -/
def Edge (f : Function) (b c : BlockId) : Prop := ∃ t, f.exit b = some t ∧ c ∈ t.successors

/-- A walk from the entry block, listed from its last block back to the first. -/
inductive Walk (f : Function) : BlockId → List BlockId → Prop
  | start : Walk f entry [entry]
  | step {b c : BlockId} {path : List BlockId} :
    Walk f b path → f.Edge b c → Walk f c (c :: path)

def Reachable (f : Function) (b : BlockId) : Prop := ∃ path, f.Walk b path

/-- Every walk to `b` comes through `d`. -/
def Dominates (f : Function) (d b : BlockId) : Prop := ∀ path, f.Walk b path → d ∈ path

theorem Walk.mem {f : Function} {b : BlockId} {path : List BlockId} (h : f.Walk b path) :
    b ∈ path := by
  cases h with
  | start => exact List.mem_cons_self
  | step _ _ => exact List.mem_cons_self

theorem Walk.entry_mem {f : Function} {b : BlockId} {path : List BlockId} (h : f.Walk b path) :
    entry ∈ path := by
  induction h with
  | start => exact List.mem_cons_self
  | step _ _ ih => exact List.mem_cons_of_mem _ ih

theorem dominates_self (f : Function) (b : BlockId) : f.Dominates b b := fun _ h => h.mem

theorem entry_dominates (f : Function) (b : BlockId) : f.Dominates entry b :=
  fun _ h => h.entry_mem

/-! ## Definitions and uses -/

def IsParam (f : Function) (v : ValueId) : Prop := v.index < f.params.length

/-- The instruction that defines `v` is number `i` of block `b`. -/
def InstAt (f : Function) (b : BlockId) (i : Nat) (v : ValueId) : Prop :=
  ∃ block, f.block? b = some block ∧ block.insts[i]? = some v

/-- The definition of `v` dominates instruction `i` of block `b`. Parameters are defined before the
entry block. -/
def DominatesInst (f : Function) (v : ValueId) (b : BlockId) (i : Nat) : Prop :=
  f.IsParam v ∨ ∃ c j, f.InstAt c j v ∧ (c = b ∧ j < i ∨ c ≠ b ∧ f.Dominates c b)

/-- The definition of `v` dominates the end of block `b`. -/
def DominatesEnd (f : Function) (v : ValueId) (b : BlockId) : Prop :=
  f.IsParam v ∨ ∃ c j, f.InstAt c j v ∧ f.Dominates c b

/-- A valid body. As numbers of values have 32 bits, of which the highest is the absent one, that
clause is about bodies that do not run out of numbers. -/
structure Valid (f : Function) : Prop where
  /-- Every value is defined at one place. -/
  single : ∀ {v b i c j}, f.InstAt b i v → f.InstAt c j v → b = c ∧ i = j
  defined : ∀ {b i v}, f.InstAt b i v → ∃ d, f.definition? v = some d
  operands : ∀ {b i v d}, f.InstAt b i v → f.definition? v = some d → ∀ u ∈ d.op.operands,
    u.index < f.values.size ∧ (f.values.size ≤ 0xFFFFFFFF → u.isAbsent = false)
  exit_operands : ∀ {b t}, f.exit b = some t → ∀ u ∈ t.uses,
    u.index < f.values.size ∧ (f.values.size ≤ 0xFFFFFFFF → u.isAbsent = false)
  targets : ∀ {b t}, f.exit b = some t → ∀ c ∈ t.successors, f.HasBlock c
  uses : ∀ {b i v d}, f.InstAt b i v → f.definition? v = some d → f.Reachable b →
    ∀ u ∈ d.op.uses, f.DominatesInst u b i
  exit_uses : ∀ {b t}, f.exit b = some t → f.Reachable b → ∀ u ∈ t.uses, f.DominatesEnd u b
  arms : ∀ {b i v d}, f.InstAt b i v → f.definition? v = some d → f.Reachable b →
    ∀ arm ∈ d.op.arms, f.DominatesEnd arm.1 arm.2
  predecessors : ∀ {b i v d incoming}, f.InstAt b i v → f.definition? v = some d →
    d.op = .phi incoming →
    (incoming.map (·.2)).Nodup ∧ ∀ c, c ∈ incoming.map (·.2) ↔ f.Edge c b
  entry_free : ∀ b, ¬ f.Edge b entry

end Function

end TypedLowering.Ssa
