import TypedLowering.Lowering.Config
import TypedLowering.Lowering.Registry
import TypedLowering.Lowering.Scope
import TypedLowering.Lowering.Specialization
import TypedLowering.Lowering.SupportFunction
import TypedLowering.Lowering.Value
import TypedLowering.Ssa.Module

/-!
The state of code generation and the steps that change it. `UnitState` belongs to the whole module
under construction; `Frame` to the function whose body is being generated. A step that fails keeps
what the steps before it did.

Main definitions:

- `Gen`: code generation that reads the program, changes the state and may fail;
- `emit`, `emitSlot`, `terminate`, `appendBlock`, `positionAt`: the only steps that touch the body
  of a function;
- `callSupport`: calls of the support library, which raise the collector flag.
-/
namespace TypedLowering
set_option autoImplicit false
open Ssa

/-- What code generation reads. -/
structure Env where
  program : Program
  config : Config
  registry : Registry

/-- State of the module under construction. -/
structure UnitState where
  module : Module
  /-- The definition of each specialization, by symbol. -/
  specializations : Dict String FunctionId := .empty
  descriptors : Dict ClassId ClassDescriptor := .empty
  /-- The struct of array headers, once one is needed. -/
  arrayHeader : Option StructId := none
  /-- Whether a call that allocates has been generated. -/
  gcRequired : Bool := false
  /-- Specializations generated. -/
  generated : Nat := 0
  /-- Requests answered by a specialization that was already there. -/
  cacheHits : Nat := 0
  /-- The requests for definitions with their answers, the last one first. -/
  requests : List Request := []

/-- Where `break` and `continue` go. -/
structure LoopTarget where
  breakTo : BlockId
  continueTo : BlockId
  deriving DecidableEq, Repr

/-- State of the function whose body is being generated. -/
structure Frame where
  function : FunctionId
  block : BlockId
  scope : Scope String StaticType
  subst : Substitution
  returnType : StaticType
  this : Option ObjectRef
  /-- The enclosing loops, the innermost first. -/
  loops : List LoopTarget

/-- A frame outside of all functions. -/
def Frame.outside : Frame :=
  { function := .absent, block := .absent, scope := .empty, subst := .empty, returnType := .void
    this := none, loops := [] }

structure GenState where
  unit : UnitState
  frame : Frame

/-- Why code generation ends without result. -/
inductive Failure where
  /-- An error of the program. -/
  | reported (error : LoweringError)
  /-- A reference to a function or class that the program does not have. -/
  | dangling
  /-- The bound on the depth of the recursion was too small. -/
  | exhausted
  /-- An instruction or a second end for a block that already ends. -/
  | misplaced
  deriving DecidableEq, Repr

/-- Code generation. -/
abbrev Gen := ReaderT Env (EStateM Failure GenState)

namespace GenState

/-- Changes the function whose body is being generated. -/
def mapFunction (s : GenState) (g : Function → Function) : GenState :=
  let id := s.frame.function
  { s with unit := { s.unit with module := s.unit.module.modifyFunction id g } }

/-- A property of the function whose body is being generated. -/
def query {α : Type} (s : GenState) (default : α) (q : Function → α) : α :=
  match s.unit.module.function? s.frame.function with
  | some f => q f
  | none => default

end GenState

namespace Gen

/-! ## Failing -/

def fail {α : Type} (cause : Cause) (span : Span) : Gen α := throw (.reported ⟨cause, span⟩)

def unsupported {α : Type} (op type : String) (span : Span) : Gen α :=
  fail (.unsupportedOperation op type) span

def internal {α : Type} (message : String) (span : Span) : Gen α := fail (.internal message) span

/-- A computation that may bring up an error. -/
def ofExcept {α : Type} : Except LoweringError α → Gen α
  | .ok a => pure a
  | .error e => throw (.reported e)

/-! ## The program -/

def config : Gen Config := return (← read).config

def program : Gen Program := return (← read).program

def functionDecl (id : FuncId) : Gen FunctionDecl := do
  match (← program).function? id with
  | some d => return d
  | none => throw .dangling

def classDecl (id : ClassId) : Gen ClassDecl := do
  match (← program).class? id with
  | some d => return d
  | none => throw .dangling

/-! ## The frame -/

def frame : Gen Frame := return (← get).frame

def modifyFrame (g : Frame → Frame) : Gen Unit := modify fun s => { s with frame := g s.frame }

/-- A type at the type arguments of the current specialization. -/
def resolveType (t : StaticType) : Gen StaticType := return t.substitute (← frame).subst

/-- The static type of a node in the current specialization. -/
def nodeType (n : Node) : Gen StaticType := resolveType n.type

def layout (t : StaticType) (span : Span) : Gen Ty := ofExcept (t.lowered span)

def currentBlock : Gen BlockId := return (← frame).block

def positionAt (b : BlockId) : Gen Unit := modifyFrame fun f => { f with block := b }

def pushLoop (t : LoopTarget) : Gen Unit := modifyFrame fun f => { f with loops := t :: f.loops }

def popLoop : Gen Unit := modifyFrame fun f => { f with loops := f.loops.tail }

def setScope (scope : Scope String StaticType) : Gen Unit := modifyFrame fun f => { f with scope }

/-! ## Emission -/

/-- Whether the current block already ends. -/
def isTerminated : Gen Bool := do
  let s ← get
  return s.query false fun f => f.isTerminated s.frame.block

/-- Nothing but stack slots goes to a block that already ends. -/
def requireOpen : Gen Unit := do
  if ← isTerminated then throw .misplaced

/-- Appends an instruction to the current block. -/
def emit (d : Definition) : Gen ValueId := do
  requireOpen
  modifyGet fun s =>
    let b := s.frame.block
    (s.query .absent Function.nextValue, s.mapFunction fun f => f.append b d)

/-- Adds a stack slot. -/
def emitSlot (t : Ty) : Gen ValueId :=
  modifyGet fun s => (s.query .absent Function.nextValue, s.mapFunction fun f => f.addSlot t)

/-- Ends the current block. -/
def terminate (t : Terminator) : Gen Unit := do
  requireOpen
  modify fun s =>
    let b := s.frame.block
    s.mapFunction fun f => f.terminate b t

/-- Adds a block to the current function. -/
def appendBlock (word : String) : Gen BlockId :=
  modifyGet fun s => (s.query .absent Function.nextBlock, s.mapFunction fun f => f.addBlock word)

def valueType (v : ValueId) : Gen Ty := return (← get).query .void fun f => f.valueType v

def emitConst (c : Constant) : Gen ValueId := emit (.const c)

def emitI32 (i : Int) : Gen ValueId := emitConst (.i32 i)

def emitI64 (i : Int) : Gen ValueId := emitConst (.i64 i)

def emitBool (b : Bool) : Gen ValueId := emitConst (.bool b)

def emitDouble (x : Binary64) : Gen ValueId := emitConst (.float x)

def emitNull : Gen ValueId := emitConst .null

/-- A binary instruction has the type of its left operand. -/
def emitBinary (op : BinOp) (lhs rhs : ValueId) : Gen ValueId := do
  emit (.binary op lhs rhs (← valueType lhs))

def emitSelect (cond thenValue elseValue : ValueId) : Gen ValueId := do
  emit (.select cond thenValue elseValue (← valueType thenValue))

def emitStore (value ptr : ValueId) : Gen Unit := do
  let _ ← emit (.store value ptr)

/-- Jumps to a block unless the current one already ends. -/
def branchIfOpen (target : BlockId) : Gen Unit := do
  if !(← isTerminated) then terminate (.br target)

/-! ## Functions of the module -/

def modifyUnit (g : UnitState → UnitState) : Gen Unit := modify fun s => { s with unit := g s.unit }

/-- Declares an external function; a name in use with another signature is an error. -/
def declareExternal (name : String) (params : List Ty) (ret : Ty) (attrs : Attributes)
    (variadic : Bool) (span : Span) : Gen FunctionId := do
  match (← get).unit.module.declare name params ret attrs variadic with
  | .ok (id, m) =>
    modifyUnit fun u => { u with module := m }
    return id
  | .error c =>
    unsupported ("external declaration `" ++ c.name ++ ": " ++ c.requested ++ "`") c.existing span

/-- A call of a function of the module. -/
def callFunction (callee : FunctionId) (args : List ValueId) (attrs : Attributes) :
    Gen ValueId := do
  let ret := (← get).unit.module.functionRet callee
  emit (.call callee ret args attrs)

/-- A call of the support library. -/
def callSupport (f : SupportFunction) (args : List ValueId) (span : Span) : Gen ValueId := do
  let callee ← declareExternal f.symbol f.params f.ret f.attributes f.variadic span
  if f.allocates then modifyUnit fun u => { u with gcRequired := true }
  emit (.call callee f.ret args .none)

/-- Declares a function from doubles to a double. -/
def declareMath (symbol : String) (arity : Nat) (attrs : Attributes) (span : Span) :
    Gen FunctionId :=
  declareExternal symbol (List.replicate arity .f64) .f64 attrs false span

/-! ## Layouts -/

/-- The header of arrays: length, capacity and a pointer to the elements. -/
def arrayHeader : Gen StructId := do
  match (← get).unit.arrayHeader with
  | some id => return id
  | none =>
    let (id, m) := (← get).unit.module.addStruct "brisk.array" [.i32, .i32, .ptr]
    modifyUnit fun u => { u with module := m, arrayHeader := some id }
    return id

/-- Lays out a class and adds its struct to the module. -/
def buildDescriptor (cls : ClassId) : Gen ClassDescriptor := do
  let decl ← classDecl cls
  let fields ← decl.fields.mapM fun f => do
    return (⟨f.name, f.type, ← layout f.type f.span⟩ : FieldInfo)
  let struct : StructDef := ⟨"class." ++ decl.name, fields.map (·.lowered)⟩
  let (id, m) := (← get).unit.module.addStruct struct.name struct.fields
  modifyUnit fun u => { u with module := m }
  let methods ← decl.methods.toList.mapM fun m => do return ((← functionDecl m).name, m)
  return {
    cls, name := decl.name, layout := id, fields, size := struct.size, align := struct.align
    methods := .ofList methods, constructor := decl.constructor }

/-- The descriptor of a class, built when it is first needed. -/
def descriptor (cls : ClassId) : Gen ClassDescriptor := do
  match (← get).unit.descriptors.get? cls with
  | some d => return d
  | none =>
    let d ← buildDescriptor cls
    modifyUnit fun u => { u with descriptors := u.descriptors.insert cls d }
    return d

/-- Adds the constant data of an array literal. -/
def addLiteralGlobal (elemType : Ty) (data : List Constant) : Gen GlobalId := do
  let m := (← get).unit.module
  let (id, m) := m.addGlobal ("brisk.lit." ++ toString m.globals.size) elemType data
  modifyUnit fun u => { u with module := m }
  return id

/-! ## Variables -/

/-- Stores a value in a new stack slot and binds a name to it. -/
def bindLocal (name : String) (value : ValueId) (type : StaticType) (span : Span) : Gen Unit := do
  let lowered ← layout type span
  let slot ← emitSlot lowered
  emitStore value slot
  modifyFrame fun f => { f with scope := f.scope.bindSlot name slot lowered type }

end Gen

/-- How a node is turned into code; the parts of a node are handed back to it. -/
abbrev Generate := Node → Gen Value

end TypedLowering
