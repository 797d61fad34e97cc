import TypedLowering.Lowering.Conversion

/-!
The members of `Math`. Arguments are converted to numbers and every result is a number. Constants
are written in place; pure functions are intrinsics, which carry the configured attributes; the
rest are functions of the mathematical library.
-/
namespace TypedLowering
set_option autoImplicit false
open Ssa

/-- How a member of `Math` is compiled. -/
inductive MathMember where
  | constant (value : Binary64)
  | intrinsic (symbol : String) (arity : Nat)
  | library (symbol : String) (arity : Nat)
  /-- Pairs up any number of arguments; without any the result is `empty`. -/
  | fold (symbol : String) (empty : Binary64)
  /-- The nearest integer, halves going up. -/
  | round
  | random
  deriving DecidableEq, Repr

namespace MathMember

/-- The double nearest to `digits` with a point behind the first. -/
def constantOf (digits : Nat) (places : Nat) : MathMember :=
  .constant (.ofDecimal false digits (-(places : Int)))

/-- The members, by name. -/
def table : List (String × MathMember) := [
  ("PI", constantOf 3141592653589793 15),
  ("E", constantOf 2718281828459045 15),
  ("LN2", constantOf 6931471805599453 16),
  ("LN10", constantOf 2302585092994046 15),
  ("LOG2E", constantOf 14426950408889634 16),
  ("LOG10E", constantOf 4342944819032518 16),
  ("SQRT2", constantOf 14142135623730951 16),
  ("SQRT1_2", constantOf 7071067811865476 16),
  ("abs", .intrinsic "llvm.fabs.f64" 1),
  ("ceil", .intrinsic "llvm.ceil.f64" 1),
  ("floor", .intrinsic "llvm.floor.f64" 1),
  ("trunc", .intrinsic "llvm.trunc.f64" 1),
  ("sqrt", .intrinsic "llvm.sqrt.f64" 1),
  ("exp", .intrinsic "llvm.exp.f64" 1),
  ("log", .intrinsic "llvm.log.f64" 1),
  ("sin", .intrinsic "llvm.sin.f64" 1),
  ("cos", .intrinsic "llvm.cos.f64" 1),
  ("pow", .intrinsic "llvm.pow.f64" 2),
  ("min", .fold "llvm.minimum.f64" (.infinity false)),
  ("max", .fold "llvm.maximum.f64" (.infinity true)),
  ("tan", .library "tan" 1),
  ("asin", .library "asin" 1),
  ("acos", .library "acos" 1),
  ("atan", .library "atan" 1),
  ("atan2", .library "atan2" 2),
  ("round", .round),
  ("random", .random)]

def named? (name : String) : Option MathMember := table.lookup name

/-- The names of parameters in messages. -/
def paramName (index : Nat) : String := if index = 0 then "x" else "y"

end MathMember

namespace Gen

/-- One half. -/
def half : Binary64 := .ofDecimal false 5 (-1)

/-- The error of a member that a built-in object does not have. -/
def noMember {α : Type} (object member : String) (span : Span) : Gen α :=
  fail (.unsupportedBuiltin object member) span

/-- The operands of all arguments as numbers. -/
def numberOperands (generate : Generate) (args : List Node) : Gen (List ValueId) :=
  args.mapM fun a => generateOperand generate a .number

/-- The operands of a member with a fixed number of arguments. -/
def mathOperands (generate : Generate) (member : String) (args : List Node) (arity : Nat)
    (span : Span) : Gen (List ValueId) :=
  if args.length < arity then
    fail (.missingArgument ("Math." ++ member) (MathMember.paramName args.length)) span
  else if arity < args.length then
    unsupported ("`Math." ++ member ++ "` with " ++ toString args.length ++ " arguments")
      BuiltinObject.math.name span
  else numberOperands generate args

/-- The power of two numbers. -/
def emitPower (base exponent : ValueId) (span : Span) : Gen ValueId := do
  let hints := (← config).intrinsicHints
  let pow ← declareMath "llvm.pow.f64" 2 hints span
  callFunction pow [base, exponent] hints

/-- Rounds down, and up by one from there if the fraction is at least one half. To add one half
first would take the largest double below one half to one. -/
def emitRound (x : ValueId) (span : Span) : Gen ValueId := do
  let hints := (← config).intrinsicHints
  let floor ← declareMath "llvm.floor.f64" 1 hints span
  let down ← callFunction floor [x] hints
  let fraction ← emitBinary .fsub x down
  let half ← emitDouble half
  let roundUp ← emit (.fcmp .oge fraction half)
  let one ← emitDouble (.ofInt 1)
  let up ← emitBinary .fadd down one
  emitSelect roundUp up down

/-- A member of `Math` that is not called: constants only. -/
def mathField (member : String) (span : Span) : Gen Value := do
  match MathMember.named? member with
  | some (.constant x) => return .rvalue (← emitDouble x) .number
  | some _ => unsupported ("method reference `" ++ member ++ "`") BuiltinObject.math.name span
  | none => noMember BuiltinObject.math.name member span

/-- The operand of a call of a member of `Math`. -/
def mathCallOperand (generate : Generate) (member : String) (args : List Node) (span : Span) :
    Gen ValueId := do
  match MathMember.named? member with
  | some (.intrinsic symbol arity) =>
    let operands ← mathOperands generate member args arity span
    let hints := (← config).intrinsicHints
    let callee ← declareMath symbol arity hints span
    callFunction callee operands hints
  | some (.library symbol arity) =>
    let operands ← mathOperands generate member args arity span
    let callee ← declareMath symbol arity .none span
    callFunction callee operands .none
  | some (.fold symbol empty) =>
    match ← numberOperands generate args with
    | [] => emitDouble empty
    | first :: rest =>
      let hints := (← config).intrinsicHints
      let callee ← declareMath symbol 2 hints span
      rest.foldlM (fun acc next => callFunction callee [acc, next] hints) first
  | some .round =>
    match ← mathOperands generate member args 1 span with
    | x :: _ => emitRound x span
    | [] => throw .dangling
  | some .random =>
    let _ ← mathOperands generate member args 0 span
    callSupport .mathRandom [] span
  | some (.constant _) =>
    unsupported ("call of constant `" ++ member ++ "`") BuiltinObject.math.name span
  | none => noMember BuiltinObject.math.name member span

def mathCall (generate : Generate) (member : String) (args : List Node) (span : Span) :
    Gen Value := do
  return .rvalue (← mathCallOperand generate member args span) .number

end Gen

end TypedLowering
