import TypedLowering.Lowering.Access

/-!
Conversions between static types. Without being asked for, an integer widens to a number and a value
becomes a nullable one; an explicit cast also narrows a number, converts between booleans and
integers, and takes a value out of a nullable. Equal types need no conversion, and nothing else
converts.
-/
namespace TypedLowering
set_option autoImplicit false
open Ssa

namespace Gen

/-- Makes a value nullable: a primitive moves to a heap cell, a pointer stays as it is. -/
def boxValue (v : Value) (target : StaticType) (span : Span) : Gen Value := do
  let inner ← layout v.type span
  let x ← operand v span
  match inner with
  | .ptr => return .rvalue x target
  | .i1 | .i32 | .f64 => return .rvalue (← callSupport (.box inner) [x] span) target
  | .i64 | .void => unsupported "implicit conversion to nullable" v.type.text span

/-- Takes a value out of a nullable: a primitive is read from its cell. -/
def unboxValue (v : Value) (inner : StaticType) (span : Span) : Gen Value := do
  let lowered ← layout inner span
  let cell ← operand v span
  match lowered with
  | .ptr => valueOf cell inner span
  | _ => valueOf (← emit (.load lowered cell)) inner span

/-- The error of a conversion that does not exist. -/
def noConversion {α : Type} (explicit : Bool) (source target : StaticType) (span : Span) : Gen α :=
  unsupported ((if explicit then "conversion to `" else "implicit conversion to `") ++ target.text
    ++ "`") source.text span

/-- Converts a value of another type than `target`; `toInner` is its conversion to the type under a
nullable `target`. -/
def convertFrom (explicit : Bool) (v : Value) (span : Span) (toInner : Gen Value)
    (target : StaticType) : Gen Value := do
  match v.type, target with
  | .int, .number => return .rvalue (← emit (.cast .sitofp (← operand v span) .f64)) target
  | .number, .int =>
    if explicit then return .rvalue (← emit (.cast .fptosi (← operand v span) .i32)) target
    else noConversion explicit v.type target span
  | .boolean, .int =>
    if explicit then return .rvalue (← emit (.cast .zext (← operand v span) .i32)) target
    else noConversion explicit v.type target span
  | .int, .boolean =>
    if explicit then
      let x ← operand v span
      let zero ← emitI32 0
      return .rvalue (← emit (.icmp .ne x zero)) target
    else noConversion explicit v.type target span
  | .nullable inner, _ =>
    if explicit && inner = target then unboxValue v target span
    else noConversion explicit v.type target span
  | _, .nullable _ => boxValue (← toInner) target span
  | _, _ => noConversion explicit v.type target span

/-- Converts a value to a type, as far as the way of asking for it allows. -/
def convert (explicit : Bool) (v : Value) (span : Span) : StaticType → Gen Value
  | .nullable inner =>
    if v.type = .nullable inner then return v
    else convertFrom explicit v span (convert explicit v span inner) (.nullable inner)
  | target =>
    if v.type = target then return v
    else convertFrom explicit v span (pure v) target

/-- Converts a value where nothing asks for it. -/
def castImplicit (v : Value) (target : StaticType) (span : Span) : Gen Value :=
  convert false v span target

/-- Converts a value as an explicit cast does. -/
def castExplicit (v : Value) (target : StaticType) (span : Span) : Gen Value :=
  convert true v span target

/-- The operand of a value converted to a type. -/
def castOperand (v : Value) (target : StaticType) (span : Span) : Gen ValueId := do
  operand (← castImplicit v target span) span

/-- Assigns a value to a place, and yields what was stored. -/
def assign (a : Assignable) (v : Value) (span : Span) : Gen Value := do
  let x ← castOperand v a.type span
  store a x span
  valueOf x a.type span

/-- The operand of a node, converted to a type. -/
def generateOperand (generate : Generate) (n : Node) (t : StaticType) : Gen ValueId := do
  castOperand (← generate n) t n.span

end Gen

end TypedLowering
