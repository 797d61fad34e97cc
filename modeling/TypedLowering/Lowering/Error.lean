import TypedLowering.Diagnostic.Basic

/-!
Errors of code generation: a cause and the location of the node that brought it up. The wording of
messages, labels and notes is fixed here.
-/
namespace TypedLowering
set_option autoImplicit false

/-- Why code generation fails. -/
inductive Cause where
  /-- A kind of node that nothing generates. -/
  | unsupportedSyntax (kind : String)
  /-- An operator or conversion that a type does not have. -/
  | unsupportedOperation (op type : String)
  /-- A member that a built-in object does not have. -/
  | unsupportedBuiltin (object member : String)
  /-- An argument that is left out and has no default. -/
  | missingArgument (function param : String)
  /-- A literal that its type cannot represent. -/
  | invalidLiteral (text type : String)
  /-- A tree that breaks the rules of resolved programs. -/
  | internal (message : String)
  deriving DecidableEq, Repr

namespace Cause

def message : Cause → String
  | .unsupportedSyntax kind => "unsupported syntax: " ++ kind
  | .unsupportedOperation op type => "unsupported operation `" ++ op ++ "` on type `" ++ type ++ "`"
  | .unsupportedBuiltin object member =>
    "`" ++ object ++ "` has no supported member `" ++ member ++ "`"
  | .missingArgument function param =>
    "missing argument for parameter `" ++ param ++ "` of `" ++ function ++ "`"
  | .invalidLiteral text type => "invalid " ++ type ++ " literal `" ++ text ++ "`"
  | .internal message => "internal code generation error: " ++ message

def code : Cause → ErrorCode
  | .unsupportedSyntax _ => .e4001
  | .unsupportedOperation _ _ => .e4002
  | .unsupportedBuiltin _ _ => .e4003
  | .missingArgument _ _ => .e4004
  | .invalidLiteral _ _ => .e4005
  | .internal _ => .e9001

/-- What the label at the location says. -/
def label : Cause → String
  | .unsupportedSyntax _ => "not supported by the compiled subset"
  | .unsupportedOperation _ _ => "operation not defined for this type"
  | .unsupportedBuiltin _ _ => "unknown member"
  | .missingArgument _ _ => "argument missing here"
  | .invalidLiteral _ _ => "literal out of range for its type"
  | .internal _ => "while generating this node"

/-- Advice that goes with the message. -/
def notes : Cause → List String
  | .unsupportedSyntax _ => ["remove or rewrite this construct"]
  | .unsupportedOperation _ _ => ["narrowing conversions need an explicit cast"]
  | .missingArgument _ _ => ["pass the argument or give the parameter a default value"]
  | .internal _ => ["this is a compiler bug"]
  | .unsupportedBuiltin _ _ | .invalidLiteral _ _ => []

end Cause

/-- A located error. -/
structure LoweringError where
  cause : Cause
  span : Span
  deriving DecidableEq, Repr

/-- The diagnostic of an error, with a primary label at its location. -/
def LoweringError.toDiagnostic (e : LoweringError) : Diagnostic :=
  { code := e.cause.code
    severity := .error
    message := e.cause.message
    labels := [⟨e.span, e.cause.label, true⟩]
    notes := e.cause.notes }

end TypedLowering
