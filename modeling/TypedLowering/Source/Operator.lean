/-!
Operators of the source language and their spellings.
-/
namespace TypedLowering
set_option autoImplicit false

/-- Operators with two operands. -/
inductive BinaryOp where
  | add | sub | mul | div | rem | exp
  | eq | notEq | strictEq | strictNotEq | lt | ltEq | gt | gtEq
  | bitAnd | bitOr | bitXor | shl | shr | ushr
  | and | or
  deriving DecidableEq, Repr

namespace BinaryOp

def symbol : BinaryOp → String
  | .add => "+"
  | .sub => "-"
  | .mul => "*"
  | .div => "/"
  | .rem => "%"
  | .exp => "**"
  | .eq => "=="
  | .notEq => "!="
  | .strictEq => "==="
  | .strictNotEq => "!=="
  | .lt => "<"
  | .ltEq => "<="
  | .gt => ">"
  | .gtEq => ">="
  | .bitAnd => "&"
  | .bitOr => "|"
  | .bitXor => "^"
  | .shl => "<<"
  | .shr => ">>"
  | .ushr => ">>>"
  | .and => "&&"
  | .or => "||"

/-- Every operator, in the order of declaration. -/
def all : List BinaryOp :=
  [.add, .sub, .mul, .div, .rem, .exp, .eq, .notEq, .strictEq, .strictNotEq, .lt, .ltEq, .gt, .gtEq,
    .bitAnd, .bitOr, .bitXor, .shl, .shr, .ushr, .and, .or]

/-- A comparison yields a boolean whatever its operands are. -/
def isComparison : BinaryOp → Bool
  | .eq | .notEq | .strictEq | .strictNotEq | .lt | .ltEq | .gt | .gtEq => true
  | _ => false

/-- The operator with a spelling. -/
def ofSymbol? (s : String) : Option BinaryOp := all.find? fun op => op.symbol = s

end BinaryOp

/-- Operators in front of one operand. -/
inductive UnaryOp where
  | neg | plus | not | bitNot
  deriving DecidableEq, Repr

namespace UnaryOp

def symbol : UnaryOp → String
  | .neg => "-"
  | .plus => "+"
  | .not => "!"
  | .bitNot => "~"

def all : List UnaryOp := [.neg, .plus, .not, .bitNot]

def ofSymbol? (s : String) : Option UnaryOp := all.find? fun op => op.symbol = s

end UnaryOp

/-- Operators that change a variable by one. -/
inductive UpdateOp where
  | increment | decrement
  deriving DecidableEq, Repr

namespace UpdateOp

def symbol : UpdateOp → String
  | .increment => "++"
  | .decrement => "--"

def all : List UpdateOp := [.increment, .decrement]

def ofSymbol? (s : String) : Option UpdateOp := all.find? fun op => op.symbol = s

end UpdateOp

end TypedLowering
