import TypedLowering.Data.Dict
import TypedLowering.Ssa.Function
import TypedLowering.Ssa.Layout

/-!
Modules of the low-level code: functions, struct layouts, constant arrays and the export list, each
numbered in the order of creation. A symbol table maps the name of a function to its number.
-/
namespace TypedLowering.Ssa
set_option autoImplicit false

/-- A constant array. -/
structure Global where
  name : String
  elemType : Ty
  data : List Constant
  deriving DecidableEq, Repr

/-- A module. -/
structure Module where
  name : String
  functions : Array Function := #[]
  symbols : Dict String FunctionId := .empty
  structs : Array StructDef := #[]
  globals : Array Global := #[]
  exports : Array (String × FunctionId) := #[]

/-- A symbol that is asked for with a signature other than the one it has. -/
structure SymbolConflict where
  name : String
  existing : String
  requested : String
  deriving DecidableEq, Repr

/-- The written form of a parameter list, with dots for further arguments. -/
def paramListText (params : List Ty) (variadic : Bool) : String :=
  ", ".intercalate (params.map Ty.text ++ if variadic then ["..."] else [])

/-- The written form of a signature. -/
def signatureText (params : List Ty) (ret : Ty) (variadic : Bool) : String :=
  ret.text ++ " (" ++ paramListText params variadic ++ ")"

namespace Module

def function? (m : Module) (id : FunctionId) : Option Function := m.functions[id.index]?

/-- The name of a function; what is no function has the empty name. -/
def functionName (m : Module) (id : FunctionId) : String :=
  match m.functions[id.index]? with
  | some f => f.name
  | none => ""

/-- The return type of a function; what is no function returns `void`. -/
def functionRet (m : Module) (id : FunctionId) : Ty :=
  match m.functions[id.index]? with
  | some f => f.ret
  | none => .void

def struct? (m : Module) (id : StructId) : Option StructDef := m.structs[id.index]?

def global? (m : Module) (id : GlobalId) : Option Global := m.globals[id.index]?

/-- The function that a name is bound to. -/
def lookup (m : Module) (name : String) : Option FunctionId := m.symbols.get? name

def nextFunction (m : Module) : FunctionId := ⟨m.functions.size⟩

def nextStruct (m : Module) : StructId := ⟨m.structs.size⟩

def nextGlobal (m : Module) : GlobalId := ⟨m.globals.size⟩

/-- Adds a function and binds its name to it. -/
def addFunction (m : Module) (f : Function) : Module :=
  { m with
    functions := m.functions.push f
    symbols := m.symbols.insert f.name m.nextFunction }

def modifyFunction (m : Module) (id : FunctionId) (g : Function → Function) : Module :=
  { m with functions := m.functions.modify id.index g }

/-- Adds the shell of a definition. -/
def define (m : Module) (name : String) (params : List Ty) (ret : Ty) (linkage : Linkage) :
    FunctionId × Module :=
  (m.nextFunction, m.addFunction (.shell name params ret linkage))

/-- The declaration of an external function: the existing one if the name has it with the same
signature, else a new one. A name that is bound to a definition or has another signature is a
conflict; the attributes of the first declaration stay. -/
def declare (m : Module) (name : String) (params : List Ty) (ret : Ty) (attrs : Attributes)
    (variadic : Bool) : Except SymbolConflict (FunctionId × Module) :=
  match m.lookup name with
  | none =>
    .ok (m.nextFunction,
      m.addFunction { Function.shell name params ret .external with attrs, variadic })
  | some id =>
    match m.function? id with
    | none => .ok (id, m)
    | some f =>
      if f.isDeclaration && f.params = params && f.ret = ret && f.variadic = variadic then
        .ok (id, m)
      else
        .error {
          name
          existing := signatureText f.params f.ret f.variadic
          requested := signatureText params ret variadic }

def addStruct (m : Module) (name : String) (fields : List Ty) : StructId × Module :=
  (m.nextStruct, { m with structs := m.structs.push ⟨name, fields⟩ })

def addGlobal (m : Module) (name : String) (elemType : Ty) (data : List Constant) :
    GlobalId × Module :=
  (m.nextGlobal, { m with globals := m.globals.push ⟨name, elemType, data⟩ })

/-- Lists a function as exported under a name and makes it visible. -/
def addExport (m : Module) (name : String) (id : FunctionId) : Module :=
  { m.modifyFunction id fun f => { f with linkage := .exported } with
    exports := m.exports.push (name, id) }

/-- The first function exported under a name. -/
def exportNamed (m : Module) (name : String) : Option FunctionId :=
  (m.exports.find? fun e => e.1 = name).map (·.2)

/-- Every function with its number. -/
def numbered (m : Module) : List (FunctionId × Function) :=
  m.functions.toList.zipIdx.map fun (f, i) => (⟨i⟩, f)

/-- The functions that have a body here. -/
def definitions (m : Module) : List (FunctionId × Function) :=
  m.numbered.filter fun (_, f) => !f.isDeclaration

@[simp] theorem lookup_addFunction_self (m : Module) (f : Function) :
    (m.addFunction f).lookup f.name = some m.nextFunction := by
  simp [lookup, addFunction]

@[simp] theorem function?_addFunction_next (m : Module) (f : Function) :
    (m.addFunction f).function? m.nextFunction = some f := by
  simp [function?, addFunction, nextFunction]

end Module

end TypedLowering.Ssa
