import TypedLowering.Lowering.Representation
import TypedLowering.Ssa.Handle

/-!
Values that generated expressions yield: an operand with its static type, a place that can be read
and assigned, or a reference to an object. The value of statements has no operand at all.
-/
namespace TypedLowering
set_option autoImplicit false
open Ssa (Ty ValueId StructId)

/-- A field in the layout of a class. -/
structure FieldInfo where
  name : String
  type : StaticType
  lowered : Ty
  deriving DecidableEq, Repr

/-- Layout and members of a class. Instances hold the fields in order of declaration. -/
structure ClassDescriptor where
  cls : ClassId
  name : String
  layout : StructId
  fields : List FieldInfo
  size : Nat
  align : Nat
  methods : Dict String FuncId
  constructor : Option FuncId

namespace ClassDescriptor

/-- The type of the instances. -/
def type (d : ClassDescriptor) : StaticType := .object d.cls d.name

/-- The first field with a name, and its number. -/
def field? (d : ClassDescriptor) (name : String) : Option (FieldInfo × Nat) :=
  d.fields.zipIdx.find? fun f => f.1.name = name

end ClassDescriptor

/-- What an object reference refers to. -/
inductive ObjectKind where
  | cls (descriptor : ClassDescriptor)
  | array (layout : ArrayLayout)
  | builtin (object : BuiltinObject)

/-- A reference to an object. Built-in objects have no address, and neither has a class that stands
in front of a static method. -/
structure ObjectRef where
  kind : ObjectKind
  address : Option ValueId
  type : StaticType

namespace ObjectRef

/-- An instance of a class. -/
def instanceAt (d : ClassDescriptor) (address : ValueId) : ObjectRef := ⟨.cls d, some address, d.type⟩

/-- A class itself. -/
def ofClass (d : ClassDescriptor) : ObjectRef := ⟨.cls d, none, d.type⟩

def ofBuiltin (b : BuiltinObject) : ObjectRef := ⟨.builtin b, none, .builtin b⟩

def arrayAt (l : ArrayLayout) (address : ValueId) : ObjectRef := ⟨.array l, some address, l.type⟩

/-- The name of the type in messages. -/
def typeName (o : ObjectRef) : String :=
  match o.kind with
  | .cls d => d.name
  | .array l => l.type.text
  | .builtin b => b.name

end ObjectRef

/-- Where an assignable value is stored. -/
inductive Place where
  /-- The stack slot of a variable or parameter. -/
  | slot (ptr : ValueId) (lowered : Ty)
  /-- A field of a class instance. -/
  | field (object : ValueId) (struct : StructId) (index : Nat) (lowered : Ty)
  /-- An element of an array. -/
  | element (array index : ValueId) (layout : ArrayLayout)

/-- A place and the static type of what it holds. -/
structure Assignable where
  place : Place
  type : StaticType

/-- A generated value. -/
inductive Value where
  /-- The value of statements and of expressions that yield nothing. -/
  | unit
  /-- A computed operand. -/
  | rvalue (operand : ValueId) (type : StaticType)
  /-- A place, which is read only when its value is needed. -/
  | assignable (target : Assignable)
  | object (ref : ObjectRef)

/-- The static type of a value. -/
def Value.type : Value → StaticType
  | .unit => .void
  | .rvalue _ t => t
  | .assignable a => a.type
  | .object o => o.type

end TypedLowering
