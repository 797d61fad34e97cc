import TypedLowering.Source.Span

/-!
Diagnostics: a code, a severity, a message, labelled locations and notes, and their text.
-/
namespace TypedLowering
set_option autoImplicit false

/-- Codes by which a kind of error can be looked up. -/
inductive ErrorCode where
  /-- Syntax outside the compiled subset. -/
  | e4001
  /-- An operation that the operand types do not have. -/
  | e4002
  /-- An unknown member of a built-in object. -/
  | e4003
  /-- An argument that is left out and has no default. -/
  | e4004
  /-- A literal that its type cannot represent. -/
  | e4005
  /-- A tree that breaks the rules of resolved programs. -/
  | e9001
  deriving DecidableEq, Repr

namespace ErrorCode

def text : ErrorCode → String
  | .e4001 => "E4001"
  | .e4002 => "E4002"
  | .e4003 => "E4003"
  | .e4004 => "E4004"
  | .e4005 => "E4005"
  | .e9001 => "E9001"

/-- Every code, in numeric order. -/
def all : List ErrorCode := [.e4001, .e4002, .e4003, .e4004, .e4005, .e9001]

/-- Errors that no correct program causes. -/
def isInternal : ErrorCode → Bool
  | .e9001 => true
  | _ => false

def named? (s : String) : Option ErrorCode := all.find? fun c => c.text = s

end ErrorCode

inductive Severity where
  | error
  | warning
  | note
  deriving DecidableEq, Repr

def Severity.text : Severity → String
  | .error => "error"
  | .warning => "warning"
  | .note => "note"

/-- A location with a remark. The primary labels say where the trouble is. -/
structure Label where
  span : Span
  message : String
  isPrimary : Bool
  deriving DecidableEq, Repr

/-- A diagnostic. -/
structure Diagnostic where
  code : ErrorCode
  severity : Severity
  message : String := ""
  labels : List Label := []
  notes : List String := []
  deriving DecidableEq, Repr

namespace Diagnostic

/-- The location of the first primary label. -/
def primarySpan (d : Diagnostic) : Option Span :=
  (d.labels.find? fun l => l.isPrimary).map (·.span)

def isError (d : Diagnostic) : Bool := d.severity = .error

/-- A line for the message, one for each label and one for each note. -/
def text (d : Diagnostic) : String :=
  "\n".intercalate
    ((d.severity.text ++ " [" ++ d.code.text ++ "]: " ++ d.message)
      :: d.labels.map (fun l =>
        "  " ++ (if l.isPrimary then "-->" else "   ") ++ " " ++ l.span.text ++ ": " ++ l.message)
      ++ d.notes.map (fun n => "  = note: " ++ n))

end Diagnostic

end TypedLowering
