import TypedLowering.Proofs.Decimal.Equality
import TypedLowering.Proofs.Semantics.Evaluation

/-!
Execution of low-level code on primitive values and the heap cells of nullable ones. The machine is
that of `Proofs.Semantics.Machine` with doubles and pointers in place of stack slots. It writes no
cell, and it keeps a list of those that it has read; an instruction without a meaning here, a load
from the null pointer among them, is no step.

Main definitions:

- `Primitive.equals`: equality of primitive values, where an integer that meets a double is widened;
- `Represents`: what stands for a value that may be undefined;
- `Heap.step`: one step of a function.
-/
namespace TypedLowering
set_option autoImplicit false

/-! ## Primitive values -/

/-- An integer, a truth value or a double. -/
inductive Primitive where
  | word (value : Word)
  | number (value : Binary64)
  deriving DecidableEq, Repr

namespace Primitive

def type : Primitive → StaticType
  | .word w => w.type
  | .number _ => .number

/-- The low-level type. -/
def ty : Primitive → Ssa.Ty
  | .word (.int _) => .i32
  | .word (.bool _) => .i1
  | .number _ => .f64

/-- Equality of the integers, the truth values or the doubles. Of an integer and a double the first is
widened. -/
def equals : Primitive → Primitive → Bool
  | .word (.int x), .word (.int y) => x == y
  | .word (.bool p), .word (.bool q) => p == q
  | .number x, .number y => x.orderedEq y
  | .word (.int x), .number y => (Binary64.ofInt x.toInt).orderedEq y
  | .number x, .word (.int y) => x.orderedEq (.ofInt y.toInt)
  | _, _ => false

/-- An integer equals a double if the double is that integer. -/
theorem equals_int_number (i : BitVec 32) (f : Binary64) :
    (word (.int i)).equals (number f) = true ↔ f.toInt? = some i.toInt := by
  refine Binary64.orderedEq_ofInt ?_ f
  have hlower := i.le_toInt
  have hupper := i.toInt_lt
  omega

/-- Equality of values that may be undefined. -/
def optionEquals : Option Primitive → Option Primitive → Bool
  | none, none => true
  | some p, some q => p.equals q
  | _, _ => false

end Primitive

/-! ## Registers and cells -/

namespace Ssa.Heap

/-- What a register holds. -/
inductive Content where
  | primitive (value : Primitive)
  /-- The address of a cell, or null. -/
  | pointer (cell : Option Nat)
  deriving DecidableEq, Repr

namespace Content

abbrev bool (truth : Bool) : Content := .primitive (.word (.bool truth))

def word? : Content → Option Word
  | .primitive (.word w) => some w
  | _ => none

def number? : Content → Option Binary64
  | .primitive (.number x) => some x
  | _ => none

/-- The cell that a pointer leads to. -/
def cell? : Content → Option Nat
  | .pointer cell => cell
  | _ => none

end Content

/-- What the cells hold. -/
abbrev Cells := Nat → Option Primitive

/-- What stands for a value of a type, `none` being undefined. A primitive stands for itself; a
nullable one is in a cell, or the pointer is null. -/
inductive Represents (cells : Cells) : StaticType → Option Primitive → Content → Prop
  | plain {p : Primitive} : Represents cells p.type (some p) (.primitive p)
  | undefined {t : StaticType} : Represents cells (.nullable t) none (.pointer none)
  | boxed {p : Primitive} {cell : Nat} : cells cell = some p →
    Represents cells (.nullable p.type) (some p) (.pointer (some cell))

/-! ## Instructions -/

def constant? : Constant → Option Content
  | .null => some (.pointer none)
  | .float x => some (.primitive (.number x))
  | c => c.word?.map fun w => .primitive (.word w)

/-- A comparison of words, or of pointers for equality. -/
def compare? : IntPredicate → Content → Content → Option Bool
  | p, .primitive (.word x), .primitive (.word y) => p.test x y
  | .eq, .pointer c, .pointer c' => some (c == c')
  | .ne, .pointer c, .pointer c' => some (c != c')
  | _, _, _ => none

/-- A comparison of doubles for equality. -/
def compareNumbers? : FloatPredicate → Binary64 → Binary64 → Option Bool
  | .oeq, x, y => some (x.orderedEq y)
  | .une, x, y => some (!x.orderedEq y)
  | _, _, _ => none

def cast? : CastOp → Content → Option Content
  | .sitofp, .primitive (.word (.int x)) => some (.primitive (.number (.ofInt x.toInt)))
  | _, _ => none

abbrev Registers := ValueId → Option Content

/-- The state of one call. -/
structure State where
  block : BlockId
  /-- The instructions of the block that are still to be performed. -/
  rest : List ValueId
  registers : Registers
  /-- The block control came from, and the registers when it left that block. -/
  origin : Option (BlockId × Registers)
  /-- The cells that have been read. -/
  loads : List Nat

namespace State

def define (a : State) (v : ValueId) (d : Content) : State :=
  { a with registers := fun u => if u = v then some d else a.registers u }

/-- The value of a phi: the arm of the block control came from, as it was when control left. -/
def arm? (a : State) (incoming : List (ValueId × BlockId)) : Option Content := do
  let (source, registers) ← a.origin
  let arm ← incoming.find? fun arm => arm.2 = source
  registers arm.1

/-- What an instruction computes, and the cells that it reads. A load is of a cell, and of what is in
it. -/
def result? (cells : Cells) (a : State) (d : Definition) : Option (Content × List Nat) :=
  match d.op with
  | .const c => do return (← constant? c, [])
  | .binary op x y => do
    let word ← op.apply (← (← a.registers x).word?) (← (← a.registers y).word?)
    return (.primitive (.word word), [])
  | .icmp p x y => do return (.bool (← compare? p (← a.registers x) (← a.registers y)), [])
  | .fcmp p x y => do
    let truth ← compareNumbers? p (← (← a.registers x).number?) (← (← a.registers y).number?)
    return (.bool truth, [])
  | .cast op x => do return (← cast? op (← a.registers x), [])
  | .load p => do
    let cell ← (← a.registers p).cell?
    let content ← cells cell
    if content.ty = d.type then return (.primitive content, [cell]) else none
  | .phi incoming => do return (← a.arm? incoming, [])
  | _ => none

/-- Performs the instruction that defines a value. -/
def perform (cells : Cells) (a : State) (v : ValueId) (d : Definition) : Option State := do
  let (content, read) ← a.result? cells d
  return { a.define v content with loads := a.loads ++ read }

end State

/-! ## Runs -/

/-- Control passes to the head of a block. -/
def jump (f : Function) (a : State) (b : BlockId) : Option State := do
  let block ← f.block? b
  return { a with block := b, rest := block.insts.toList, origin := some (a.block, a.registers) }

/-- What happens at the end of a block. The machine stops where the function returns. -/
def leave (f : Function) (a : State) : Terminator → Option State
  | .br b => jump f a b
  | .condBr c t e => do
    match ← (← a.registers c).word? with
    | .bool p => jump f a (if p then t else e)
    | .int _ => none
  | .ret _ | .unreachable => none

/-- One step. -/
def step (cells : Cells) (f : Function) (a : State) : Option State :=
  match a.rest with
  | v :: rest => do
    let d ← f.definition? v
    State.perform cells { a with rest } v d
  | [] => do leave f a (← f.exit a.block)

/-- Any number of steps. -/
def Steps (cells : Cells) (f : Function) : State → State → Prop :=
  Relation.ReflTransGen fun a a' => step cells f a = some a'

/-! ## Loads -/

/-- What is performed next is a load through `ptr`. -/
def State.Loads (a : State) (f : Function) (ptr : ValueId) : Prop :=
  ∃ v rest d, a.rest = v :: rest ∧ f.definition? v = some d ∧ d.op = .load ptr

variable {cells : Cells} {f : Function} {a a' : State} {v ptr : ValueId} {d : Definition}

theorem result?_load (hd : d.op = .load ptr) {content : Content} {read : List Nat}
    (h : a.result? cells d = some (content, read)) :
    ∃ cell, a.registers ptr = some (.pointer (some cell)) ∧ read = [cell] := by
  simp only [State.result?, hd, Option.bind_eq_bind, Option.bind_eq_some_iff] at h
  obtain ⟨pointer, hptr, cell, hcell, u, -, h⟩ := h
  cases pointer with
  | primitive => cases hcell
  | pointer c =>
    obtain rfl : c = some cell := hcell
    split at h
    · cases h
      exact ⟨cell, hptr, rfl⟩
    · cases h

/-- A load is from a cell, which is noted. -/
theorem load_of_step (h : step cells f a = some a') (hl : a.Loads f ptr) :
    ∃ cell, a.registers ptr = some (.pointer (some cell)) ∧ a'.loads = a.loads ++ [cell] := by
  obtain ⟨v, rest, d, hr, hd, hop⟩ := hl
  simp only [step, hr, hd, Option.bind_eq_bind, Option.bind_some, State.perform,
    Option.bind_eq_some_iff] at h
  obtain ⟨⟨content, read⟩, hresult, h⟩ := h
  obtain ⟨cell, hptr, rfl⟩ := result?_load hop hresult
  cases h
  exact ⟨cell, hptr, rfl⟩

theorem jump_loads {b : BlockId} (h : jump f a b = some a') : a'.loads = a.loads := by
  simp only [jump, Option.bind_eq_bind, Option.bind_eq_some_iff] at h
  obtain ⟨block, -, h⟩ := h
  cases h
  rfl

/-- What has been read stays noted. -/
theorem step_loads (h : step cells f a = some a') : a.loads <+: a'.loads := by
  unfold step at h
  split at h
  · next v rest _ =>
    simp only [State.perform, Option.bind_eq_bind, Option.bind_eq_some_iff] at h
    obtain ⟨d, -, ⟨content, read⟩, -, h⟩ := h
    cases h
    exact ⟨read, rfl⟩
  · simp only [Option.bind_eq_bind, Option.bind_eq_some_iff] at h
    obtain ⟨t, -, h⟩ := h
    cases t with
    | br b => exact jump_loads h ▸ List.prefix_refl _
    | condBr c thenBlock elseBlock =>
      simp only [leave, Option.bind_eq_bind, Option.bind_eq_some_iff] at h
      obtain ⟨content, -, word, -, h⟩ := h
      cases word with
      | bool p => exact jump_loads h ▸ List.prefix_refl _
      | int _ => cases h
    | ret _ | unreachable => cases h

theorem Steps.loads_prefix (h : Steps cells f a a') : a.loads <+: a'.loads := by
  induction h with
  | refl => exact List.prefix_refl _
  | tail _ hs ih => exact ih.trans (step_loads hs)

end Ssa.Heap

end TypedLowering
