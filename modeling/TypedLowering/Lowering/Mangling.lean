import TypedLowering.Source.StaticType

/-!
Symbols of specialized functions. A symbol names the owner, the function, the types of the
parameters passed and the type arguments; identifiers carry their length in bytes, so that parts
cannot run into each other.
-/
namespace TypedLowering
set_option autoImplicit false

namespace Mangling

/-- Every symbol of a specialization starts with this. -/
def head : String := "_brisk_"

/-- An identifier behind its length in bytes. -/
def identifier (s : String) : String := toString s.utf8ByteSize ++ s

/-- The encoding of a type. -/
def type : StaticType → String
  | .int => "int"
  | .number => "number"
  | .boolean => "boolean"
  | .void => "void"
  | .array t => "A" ++ type t
  | .nullable t => "N" ++ type t
  | .object _ name => "C" ++ identifier name
  | .builtin b => "M" ++ identifier b.name
  | .param name => "P" ++ identifier name

/-- The owner in front of the name of a method. -/
def ownerPart : Option String → String
  | none => ""
  | some owner => identifier owner ++ "."

/-- Each parameter type behind a separator. -/
def paramPart (params : List StaticType) : String :=
  String.join (params.map fun t => "$" ++ type t)

/-- The type arguments behind a double separator, if there are any. -/
def typeArgPart : List StaticType → String
  | [] => ""
  | args => "$$" ++ "$".intercalate (args.map type)

/-- The symbol of a specialization. -/
def symbol (owner : Option String) (name : String) (params typeArgs : List StaticType) : String :=
  head ++ ownerPart owner ++ identifier name ++ paramPart params ++ typeArgPart typeArgs

end Mangling

end TypedLowering
