import TypedLowering.Decimal.Shortest
import TypedLowering.Source.Program

/-!
Step-by-step construction of programs. Each node gets the next number `n` and the location
`n..n+1`, so that a message about it can be told from all others. A function is declared before its
body is attached, so that the body can call it.
-/
namespace TypedLowering
set_option autoImplicit false

/-- Construction of a program: it carries the program built so far. -/
abbrev Build := StateM Program

namespace Build

/-! ## Nodes -/

/-- Adds a node. -/
def node (form : Form Node) (type : StaticType) : Build Node := fun p =>
  let n := p.nodes.size
  let new := Node.mk ⟨n⟩ ⟨n, n + 1⟩ type form
  (new, { p with nodes := p.nodes.push new })

/-- A statement has type `void`. -/
def statement (form : Form Node) : Build Node := node form .void

/-- A literal with the shortest text that reads back as the double. -/
def number (x : Binary64) : Build Node := node (.numericLiteral x.text) .number

/-- An integer literal in decimal. -/
def int (i : Int) : Build Node := node (.numericLiteral (toString i)) .int

def paren (inner : Node) : Build Node := node (.paren inner) inner.type

/-- An assignment has the type of its target. -/
def assign (op : Option BinaryOp) (target value : Node) : Build Node :=
  node (.assign op target value) target.type

def update (op : UpdateOp) (before : Bool) (target : Node) : Build Node :=
  node (.update op before target) target.type

/-- The return type of a function with its type parameters replaced; those without an argument
stay. -/
def instantiatedRet (decl : FunctionDecl) (typeArgs : List StaticType) : StaticType :=
  if decl.isGeneric then decl.ret.substitute (.ofList (decl.typeParams.zip typeArgs)) else decl.ret

/-- A call of a declared function. -/
def call (func : FuncId) (decl : FunctionDecl) (args : List Node) (typeArgs : List StaticType) :
    Build Node := do
  let callee ← node (.identifier decl.name) .void
  node (.call callee args (some ⟨func, typeArgs⟩)) (instantiatedRet decl typeArgs)

/-- A call of a declared method. -/
def methodCall (receiver : Node) (func : FuncId) (decl : FunctionDecl) (args : List Node) :
    Build Node := do
  let callee ← node (.member receiver decl.name) .void
  node (.call callee args (some ⟨func, []⟩)) decl.ret

/-- A call of a member that has no declaration. -/
def memberCall (object : Node) (member : String) (args : List Node) (type : StaticType) :
    Build Node := do
  let callee ← node (.member object member) .void
  node (.call callee args none) type

/-- `new` of a declared class, resolved to its constructor if it has one. -/
def newObject (id : ClassId) (decl : ClassDecl) (args : List Node) : Build Node := do
  let type := StaticType.object id decl.name
  let callee ← node (.identifier decl.name) type
  node (.construct callee args (decl.constructor.map fun f => ⟨f, []⟩)) type

/-- `new` of an array with a length. -/
def newArray (element : StaticType) (length : Node) : Build Node := do
  let callee ← node (.identifier "Array") .void
  node (.construct callee [length] none) (.array element)

/-! ## Declarations -/

/-- Binds a built-in object under its name. -/
def builtin (object : BuiltinObject) : Build Unit :=
  modify fun p => { p with symbols := p.symbols.insert object.name (.builtin object) }

/-- Declares a class and binds its name. -/
def declareClass (name : String) (fields : List FieldDecl) : Build ClassId := fun p =>
  let id : ClassId := ⟨p.classes.size⟩
  (id, { p with
    classes := p.classes.push { name, fields }
    symbols := p.symbols.insert name (.cls id) })

/-- Declares a function; one without owner is bound under its name. -/
def declareFunction (decl : FunctionDecl) : Build FuncId := fun p =>
  let id : FuncId := ⟨p.functions.size⟩
  (id, { p with
    functions := p.functions.push decl
    symbols := if decl.owner.isNone then p.symbols.insert decl.name (.function id) else p.symbols })

def modifyClass (id : ClassId) (f : ClassDecl → ClassDecl) : Build Unit :=
  modify fun p => { p with classes := p.classes.modify id.index f }

def modifyFunction (id : FuncId) (f : FunctionDecl → FunctionDecl) : Build Unit :=
  modify fun p => { p with functions := p.functions.modify id.index f }

/-- Declares a method of a class. -/
def method (cls : ClassId) (decl : FunctionDecl) : Build FuncId := do
  let id ← declareFunction { decl with owner := some cls }
  modifyClass cls fun c => { c with methods := c.methods.push id }
  return id

/-- Declares the constructor of a class, which returns nothing. -/
def constructor (cls : ClassId) (decl : FunctionDecl) : Build FuncId := do
  let id ← declareFunction { decl with owner := some cls, isStatic := false, ret := .void }
  modifyClass cls fun c => { c with constructor := some id }
  return id

def setBody (id : FuncId) (body : Node) : Build Unit :=
  modifyFunction id fun f => { f with body := some body }

/-- Sets the default of the parameter with a number. -/
def setDefault (id : FuncId) (index : Nat) (value : Node) : Build Unit :=
  modifyFunction id fun f =>
    { f with params := f.params.modify index fun q => { q with default := some value } }

/-- Makes a function an entry point, once. -/
def addEntry (id : FuncId) : Build Unit := do
  modifyFunction id fun f => { f with exported := true }
  modify fun p =>
    { p with
      entryPoints := if id ∈ p.entryPoints then p.entryPoints else p.entryPoints ++ [id] }

end Build

end TypedLowering
