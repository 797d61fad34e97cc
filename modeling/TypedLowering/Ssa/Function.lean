import TypedLowering.Ssa.Instruction

/-!
Functions of the low-level code: a table of values, of which the first are the parameters, and a
list of blocks that order the instructions among them. Instructions are appended to a block; stack
slots always go to the head of the first block, behind the slots already there.
-/
namespace TypedLowering.Ssa
set_option autoImplicit false

/-- A basic block: its instructions by value number, and how it ends once that is known. -/
structure Block where
  label : String
  insts : Array ValueId := #[]
  terminator : Option Terminator := none
  deriving DecidableEq, Repr

/-- Who sees a function: only its module, everybody, or it is defined elsewhere. -/
inductive Linkage where
  | internal
  | exported
  | external
  deriving DecidableEq, Repr

/-- A function definition or declaration. -/
structure Function where
  name : String
  params : List Ty
  ret : Ty
  attrs : Attributes := .none
  linkage : Linkage
  /-- Whether calls may pass more arguments than there are parameters. -/
  variadic : Bool := false
  values : Array Definition
  blocks : Array Block := #[]
  /-- The number of stack slots at the head of the first block. -/
  entryAllocas : Nat := 0
  deriving DecidableEq, Repr

namespace Function

/-- The definitions of the parameters. -/
def paramDefinitions (params : List Ty) : List Definition :=
  params.zipIdx.map fun (t, i) => ⟨.param i, t⟩

/-- A function without blocks. -/
def shell (name : String) (params : List Ty) (ret : Ty) (linkage : Linkage) : Function :=
  { name, params, ret, linkage, values := (paramDefinitions params).toArray }

def isDeclaration (f : Function) : Bool := f.linkage = .external

/-- The value of a parameter. -/
def param (index : Nat) : ValueId := ⟨index⟩

def definition? (f : Function) (v : ValueId) : Option Definition := f.values[v.index]?

/-- The type of a value; what is no value has type `void`. -/
def valueType (f : Function) (v : ValueId) : Ty :=
  match f.values[v.index]? with
  | some d => d.type
  | none => .void

def block? (f : Function) (b : BlockId) : Option Block := f.blocks[b.index]?

/-- The label of a block; what is no block has the empty label. -/
def label (f : Function) (b : BlockId) : String :=
  match f.blocks[b.index]? with
  | some block => block.label
  | none => ""

def isTerminated (f : Function) (b : BlockId) : Bool :=
  match f.blocks[b.index]? with
  | some block => block.terminator.isSome
  | none => false

/-- The number that the next value gets. -/
def nextValue (f : Function) : ValueId := ⟨f.values.size⟩

/-- The number that the next block gets. -/
def nextBlock (f : Function) : BlockId := ⟨f.blocks.size⟩

/-- Adds an empty block, labelled with a word and its number. -/
def addBlock (f : Function) (word : String) : Function :=
  { f with blocks := f.blocks.push { label := word ++ toString f.blocks.size } }

/-- Puts a value at the end of a block. -/
def place (f : Function) (b : BlockId) (v : ValueId) : Function :=
  { f with
    blocks := f.blocks.modify b.index fun block => { block with insts := block.insts.push v } }

/-- Puts a value behind the slots at the head of the first block. -/
def placeSlot (f : Function) (v : ValueId) : Function :=
  let count := f.entryAllocas
  { f with
    blocks := f.blocks.modify 0 fun block =>
      { block with insts := block.insts.insertIdxIfInBounds count v }
    entryAllocas := count + 1 }

/-- Enters the next value in the table. -/
def define (f : Function) (d : Definition) : Function := { f with values := f.values.push d }

/-- Appends an instruction to a block. -/
def append (f : Function) (b : BlockId) (d : Definition) : Function :=
  (f.place b f.nextValue).define d

/-- Adds a stack slot behind the slots at the head of the first block. -/
def addSlot (f : Function) (t : Ty) : Function :=
  (f.placeSlot f.nextValue).define ⟨.alloca t, .ptr⟩

/-- Ends a block. -/
def terminate (f : Function) (b : BlockId) (t : Terminator) : Function :=
  { f with
    blocks := f.blocks.modify b.index fun block => { block with terminator := some t } }

/-- Every instruction with its value, in block order. -/
def instructions (f : Function) : List (ValueId × Definition) :=
  (f.blocks.toList.flatMap fun b => b.insts.toList).filterMap fun v =>
    (f.definition? v).map fun d => (v, d)

/-- Callee, arguments and attributes of every call, in block order. -/
def calls (f : Function) : List (FunctionId × List ValueId × Attributes) :=
  f.instructions.filterMap fun (_, d) =>
    match d.op with
    | .call callee args attrs => some (callee, args, attrs)
    | _ => none

/-! ## What the operations change -/

@[simp] theorem values_append (f : Function) (b : BlockId) (d : Definition) :
    (f.append b d).values = f.values.push d := rfl

@[simp] theorem values_addSlot (f : Function) (t : Ty) :
    (f.addSlot t).values = f.values.push ⟨.alloca t, .ptr⟩ := rfl

@[simp] theorem values_addBlock (f : Function) (word : String) :
    (f.addBlock word).values = f.values := rfl

@[simp] theorem values_terminate (f : Function) (b : BlockId) (t : Terminator) :
    (f.terminate b t).values = f.values := rfl

@[simp] theorem valueType_append_next (f : Function) (b : BlockId) (d : Definition) :
    (f.append b d).valueType f.nextValue = d.type := by
  simp [valueType, nextValue]

@[simp] theorem definition?_append_next (f : Function) (b : BlockId) (d : Definition) :
    (f.append b d).definition? f.nextValue = some d := by
  simp [definition?, nextValue]

end Function

end TypedLowering.Ssa
