import TypedLowering.Data.Dict

/-!
Static types of the source language as trees. A nullable of a nullable is the nullable itself:
`StaticType.orUndefined` is the constructor that keeps to this, and `substitute` goes through it.
-/
namespace TypedLowering
set_option autoImplicit false

/-- The number of a function declaration. -/
structure FuncId where
  index : Nat
  deriving DecidableEq, Repr

/-- The number of a class declaration. -/
structure ClassId where
  index : Nat
  deriving DecidableEq, Repr

def FuncId.text (f : FuncId) : String := "FuncId(" ++ toString f.index ++ ")"

/-- Singleton objects of the language. -/
inductive BuiltinObject where
  | math
  deriving DecidableEq, Repr

def BuiltinObject.name : BuiltinObject → String
  | .math => "Math"

/-- A static type. -/
inductive StaticType where
  /-- 32-bit signed integers. -/
  | int
  /-- Doubles. -/
  | number
  | boolean
  | void
  | array (element : StaticType)
  /-- A value or `undefined`. -/
  | nullable (inner : StaticType)
  /-- Instances of a class. -/
  | object (cls : ClassId) (name : String)
  | builtin (which : BuiltinObject)
  /-- A type parameter. -/
  | param (name : String)
  deriving DecidableEq, Repr, Inhabited

/-- What type parameters stand for. -/
abbrev Substitution := Dict String StaticType

namespace StaticType

def isNullable : StaticType → Bool
  | .nullable _ => true
  | _ => false

/-- The nullable of a type. -/
def orUndefined (t : StaticType) : StaticType :=
  if t.isNullable then t else .nullable t

/-- The four types that are always there. -/
def isPrimitive : StaticType → Bool
  | .int | .number | .boolean | .void => true
  | _ => false

/-- Types with members: arrays, class instances and built-in objects. -/
def isObject : StaticType → Bool
  | .array _ | .object _ _ | .builtin _ => true
  | _ => false

/-- Whether a type parameter occurs in the type. -/
def isGeneric : StaticType → Bool
  | .param _ => true
  | .array t | .nullable t => t.isGeneric
  | _ => false

/-- Replaces the bound type parameters, all at once. -/
def substitute (s : Substitution) : StaticType → StaticType
  | .param name => (s.get? name).getD (.param name)
  | .array t => .array (t.substitute s)
  | .nullable t => (t.substitute s).orUndefined
  | t => t

/-- The type in source notation; a nullable element type is put in parentheses. -/
def text : StaticType → String
  | .int => "int"
  | .number => "number"
  | .boolean => "boolean"
  | .void => "void"
  | .array t => (if t.isNullable then "(" ++ t.text ++ ")" else t.text) ++ "[]"
  | .nullable t => t.text ++ " | undefined"
  | .object _ name => name
  | .builtin b => b.name
  | .param name => name

/-- No nullable stands directly under a nullable. -/
def IsCollapsed : StaticType → Prop
  | .array t => t.IsCollapsed
  | .nullable t => t.isNullable = false ∧ t.IsCollapsed
  | _ => True

theorem isCollapsed_orUndefined {t : StaticType} (h : t.IsCollapsed) :
    t.orUndefined.IsCollapsed := by
  unfold orUndefined
  split
  · exact h
  · next hn => exact ⟨by simpa using hn, h⟩

end StaticType

end TypedLowering
