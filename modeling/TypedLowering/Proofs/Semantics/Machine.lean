import Mathlib.Logic.Relation
import TypedLowering.Proofs.Ssa.Body

/-!
Execution of low-level code on integer words and truth values. An activation holds the registers and
stack cells of one call and where control stands; `Function.step` performs one instruction or one
jump. A step that has no meaning here, such as a shift by the width or more, a read of an empty cell
or an instruction on floats or heap objects, is no step at all.

Main definitions:

- `Activation.perform`: what an instruction does;
- `Function.step`: one step of a function;
- `Function.Returns`: a call with given arguments that comes to an end.
-/
namespace TypedLowering
set_option autoImplicit false

/-- A 32-bit integer or a truth value. -/
inductive Word where
  | int (bits : BitVec 32)
  | bool (truth : Bool)
  deriving DecidableEq, Repr

namespace Ssa

/-- What a register or a stack cell holds. -/
inductive Datum where
  | word (value : Word)
  /-- The address of a stack cell. -/
  | address (cell : Nat)
  deriving DecidableEq, Repr

/-! ## Operations on words -/

def Constant.word? : Constant → Option Word
  | .int .i32 i => some (.int (.ofInt 32 i))
  | .int .i1 i => some (.bool (i != 0))
  | _ => none

def BinOp.apply : BinOp → Word → Word → Option Word
  | .add, .int x, .int y => some (.int (x + y))
  | .sub, .int x, .int y => some (.int (x - y))
  | .mul, .int x, .int y => some (.int (x * y))
  | .and, .int x, .int y => some (.int (x &&& y))
  | .or, .int x, .int y => some (.int (x ||| y))
  | .xor, .int x, .int y => some (.int (x ^^^ y))
  | .and, .bool p, .bool q => some (.bool (p && q))
  | .or, .bool p, .bool q => some (.bool (p || q))
  | .xor, .bool p, .bool q => some (.bool (p ^^ q))
  | .shl, .int x, .int y => if y.toNat < 32 then some (.int (x <<< y.toNat)) else none
  | .ashr, .int x, .int y => if y.toNat < 32 then some (.int (x.sshiftRight y.toNat)) else none
  | .lshr, .int x, .int y => if y.toNat < 32 then some (.int (x >>> y.toNat)) else none
  | _, _, _ => none

def IntPredicate.test : IntPredicate → Word → Word → Option Bool
  | .eq, .int x, .int y => some (x == y)
  | .ne, .int x, .int y => some (x != y)
  | .slt, .int x, .int y => some (x.slt y)
  | .sle, .int x, .int y => some (x.sle y)
  | .sgt, .int x, .int y => some (y.slt x)
  | .sge, .int x, .int y => some (y.sle x)
  | .eq, .bool p, .bool q => some (p == q)
  | .ne, .bool p, .bool q => some (p != q)
  | _, _, _ => none

/-! ## Activations -/

abbrev Registers := ValueId → Option Datum

/-- The state of one call. -/
structure Activation where
  block : BlockId
  /-- The instructions of the block that are still to be performed. -/
  rest : List ValueId
  registers : Registers
  /-- The stack cells, each empty until it is written. -/
  memory : List (Option Datum)
  /-- The block control came from, and the registers when it left that block. -/
  origin : Option (BlockId × Registers)

namespace Activation

def word? (a : Activation) (v : ValueId) : Option Word :=
  match a.registers v with
  | some (.word w) => some w
  | _ => none

def cell? (a : Activation) (v : ValueId) : Option Nat :=
  match a.registers v with
  | some (.address cell) => some cell
  | _ => none

def define (a : Activation) (v : ValueId) (d : Datum) : Activation :=
  { a with registers := fun u => if u = v then some d else a.registers u }

/-- The value of a phi: the arm of the block control came from, as it was when control left. All phis
of a block so take their values at once. -/
def arm? (a : Activation) (incoming : List (ValueId × BlockId)) : Option Datum := do
  let (source, registers) ← a.origin
  let arm ← incoming.find? fun arm => arm.2 = source
  registers arm.1

/-- Performs the instruction that defines a value. -/
def perform (a : Activation) (v : ValueId) : Op → Option Activation
  | .const c => do return a.define v (.word (← c.word?))
  | .binary op x y => do return a.define v (.word (← op.apply (← a.word? x) (← a.word? y)))
  | .icmp p x y => do return a.define v (.word (.bool (← p.test (← a.word? x) (← a.word? y))))
  | .alloca _ => some { a.define v (.address a.memory.length) with memory := a.memory ++ [none] }
  | .load p => do
    let cell ← a.cell? p
    let content ← a.memory[cell]?
    return a.define v (← content)
  | .store x p => do
    let cell ← a.cell? p
    let d ← a.registers x
    if cell < a.memory.length then some { a with memory := a.memory.set cell (some d) } else none
  | .phi incoming => do return a.define v (← a.arm? incoming)
  | _ => none

end Activation

/-! ## Runs -/

/-- A call under way, or its result. -/
inductive Configuration where
  | running (a : Activation)
  | returned (value : Option Datum)

namespace Function

/-- Control passes to the head of a block. -/
def jump (f : Function) (a : Activation) (b : BlockId) : Option Configuration := do
  let block ← f.block? b
  return .running {
    a with block := b, rest := block.insts.toList, origin := some (a.block, a.registers) }

/-- What happens at the end of a block. -/
def leave (f : Function) (a : Activation) : Terminator → Option Configuration
  | .br b => f.jump a b
  | .condBr c t e =>
    match a.word? c with
    | some (.bool p) => f.jump a (if p then t else e)
    | _ => none
  | .ret none => some (.returned none)
  | .ret (some v) => do return .returned (some (← a.registers v))
  | .unreachable => none

/-- One step. -/
def step (f : Function) : Configuration → Option Configuration
  | .returned _ => none
  | .running a =>
    match a.rest with
    | v :: rest => do
      let d ← f.definition? v
      return .running (← { a with rest }.perform v d.op)
    | [] => do f.leave a (← f.exit a.block)

/-- The start of a call. -/
def start (f : Function) (args : List Datum) : Option Configuration := do
  let block ← f.block? ⟨0⟩
  return .running {
    block := ⟨0⟩, rest := block.insts.toList, registers := fun v => args[v.index]?, memory := []
    origin := none }

/-- Any number of steps. -/
def Steps (f : Function) : Configuration → Configuration → Prop :=
  Relation.ReflTransGen fun c c' => f.step c = some c'

/-- A call with `args` ends with `value`. -/
def Returns (f : Function) (args : List Datum) (value : Option Datum) : Prop :=
  ∃ c, f.start args = some c ∧ f.Steps c (.returned value)

end Function

end Ssa

end TypedLowering
