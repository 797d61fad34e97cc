import TypedLowering.Source.Node

/-!
Declarations of functions and classes, and the program that holds them.
-/
namespace TypedLowering
set_option autoImplicit false

/-- A declared parameter. -/
structure Param where
  name : String
  /-- May mention the type parameters of the function. -/
  type : StaticType
  optional : Bool := false
  /-- A rest parameter, which collects the trailing arguments; its type is the array type. -/
  variadic : Bool := false
  /-- Evaluated when the argument is left out. -/
  default : Option Node := none
  span : Span := .dummy

/-- A function, method or constructor. -/
structure FunctionDecl where
  name : String
  typeParams : List String := []
  params : List Param := []
  ret : StaticType
  /-- None for a function that is defined elsewhere. -/
  body : Option Node := none
  /-- The class of a method or constructor. -/
  owner : Option ClassId := none
  isStatic : Bool := false
  isAsync : Bool := false
  exported : Bool := false
  span : Span := .dummy

namespace FunctionDecl

def isGeneric (f : FunctionDecl) : Bool := !f.typeParams.isEmpty

/-- Methods and constructors that receive `this`. -/
def isInstance (f : FunctionDecl) : Bool := f.owner.isSome && !f.isStatic

end FunctionDecl

/-- A field of a class. -/
structure FieldDecl where
  name : String
  type : StaticType
  span : Span := .dummy
  deriving DecidableEq, Repr

/-- A class. -/
structure ClassDecl where
  name : String
  fields : List FieldDecl := []
  methods : Array FuncId := #[]
  constructor : Option FuncId := none

/-- What a global name refers to. -/
inductive Symbol where
  | function (id : FuncId)
  | cls (id : ClassId)
  | builtin (object : BuiltinObject)
  deriving DecidableEq, Repr

/-- A resolved program. -/
structure Program where
  /-- All nodes, in the order of construction. -/
  nodes : Array Node := #[]
  functions : Array FunctionDecl := #[]
  classes : Array ClassDecl := #[]
  /-- Global names, visible from every body. -/
  symbols : Dict String Symbol := .empty
  /-- The exported functions, in the order of export. -/
  entryPoints : List FuncId := []

namespace Program

def function? (p : Program) (id : FuncId) : Option FunctionDecl := p.functions[id.index]?

def class? (p : Program) (id : ClassId) : Option ClassDecl := p.classes[id.index]?

/-- The name of a class; what is no class has the empty name. -/
def className (p : Program) (id : ClassId) : String :=
  match p.classes[id.index]? with
  | some c => c.name
  | none => ""

/-- The type of the instances of a class. -/
def instanceType? (p : Program) (id : ClassId) : Option StaticType :=
  (p.class? id).map fun c => .object id c.name

/-- The number of resolved calls in the program. -/
def signatureCount (p : Program) : Nat := p.nodes.countP fun n => n.signature?.isSome

end Program

end TypedLowering
