import TypedLowering.Lowering.Call
import TypedLowering.Lowering.NumericText

/-!
Literals. A long array literal of primitive constants becomes constant data of the module, which is
copied; any other is built from the operands of its elements.
-/
namespace TypedLowering
set_option autoImplicit false
open Ssa

namespace Gen

/-- The error of a generator that was handed a node of another kind than its own. -/
def wrongForm {α : Type} (expected : SyntaxKind) (n : Node) : Gen α :=
  internal (expected.name ++ " generator received a " ++ n.kind.name ++ " node") n.span

/-- The constant of a numeric literal at a static type. -/
def numericConstant (text : String) (t : StaticType) (span : Span) : Except LoweringError Constant :=
  match t with
  | .int =>
    match NumericText.int? text with
    | some i => .ok (.i32 i)
    | none => .error ⟨.invalidLiteral text "int", span⟩
  | .number =>
    match NumericText.number? text with
    | some x => .ok (.float x)
    | none => .error ⟨.invalidLiteral text "number", span⟩
  | _ => .error ⟨.internal ("numeric literal typed `" ++ t.text ++ "`"), span⟩

def numericLiteral (n : Node) : Gen Value := do
  match n.form with
  | .numericLiteral text =>
    let t ← nodeType n
    let c ← ofExcept (numericConstant text t n.span)
    return .rvalue (← emitConst c) t
  | _ => wrongForm .numericLiteral n

def booleanLiteral (n : Node) : Gen Value := do
  match n.form with
  | .booleanLiteral b => return .rvalue (← emitBool b) .boolean
  | _ => wrongForm .booleanLiteral n

/-- The null pointer at a nullable or reference type. -/
def undefinedLiteral (n : Node) : Gen Value := do
  let t ← nodeType n
  match t with
  | .nullable _ | .array _ | .object _ _ => return .rvalue (← emitNull) t
  | _ => unsupported "undefined" t.text n.span

/-- The constant of an array element, if it is a literal that needs no code to become an element. -/
def constantElement (subst : Substitution) (l : ArrayLayout) (n : Node) :
    Except LoweringError (Option Constant) := do
  match n.form with
  | .numericLiteral text =>
    let t := n.type.substitute subst
    let c ← numericConstant text t n.span
    match c, l.storage.type with
    | .int _ i, .f64 => return if t = .int then some (.float (.ofInt i)) else none
    | c, lowered => return if c.type = lowered then some c else none
  | .booleanLiteral b => return if l.storage.type = .i1 then some (.bool b) else none
  | _ => return none

/-- The constants of all elements; none as soon as one element has none. -/
def constantElements (subst : Substitution) (l : ArrayLayout) :
    List Node → Except LoweringError (Option (List Constant))
  | [] => return some []
  | n :: rest => do
    match ← constantElement subst l n with
    | none => return none
    | some c => return (← constantElements subst l rest).map (c :: ·)

/-- The constants of a literal whose elements are stored in place. -/
def constantData (l : ArrayLayout) (elements : List Node) : Gen (Option (List Constant)) := do
  match l.storage with
  | .boxed => return none
  | .unboxed _ => ofExcept (constantElements (← frame).subst l elements)

/-- An array copied from constant data. -/
def arrayOfConstants (l : ArrayLayout) (data : List Constant) (span : Span) : Gen ValueId := do
  let global ← addLiteralGlobal l.storage.type data
  let buffer ← emit (.globalAddr global)
  let length ← emitI32 data.length
  callSupport (.arrayFromBuffer l.storage) [buffer, length] span

/-- An array built from the operands of its elements. -/
def arrayOfNodes (generate : Generate) (l : ArrayLayout) (elements : List Node) (span : Span) :
    Gen ValueId := do
  arrayOfOperands l (← elements.mapM fun e => generateOperand generate e l.element) span

def arrayLiteral (generate : Generate) (n : Node) : Gen Value := do
  match n.form with
  | .arrayLiteral elements =>
    let l ← ofExcept (ArrayLayout.of (← nodeType n) n.span)
    let address ← match ← constantData l elements with
      | some data =>
        if (← config).literalBufferThreshold < data.length then arrayOfConstants l data n.span
        else arrayOfNodes generate l elements n.span
      | none => arrayOfNodes generate l elements n.span
    return .object (.arrayAt l address)
  | _ => wrongForm .arrayLiteral n

end Gen

end TypedLowering
