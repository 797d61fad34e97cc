import TypedLowering.Lowering.Literal
import TypedLowering.Lowering.MathObject

/-!
Operators. Arithmetic is on integers or doubles as the type of the result says, and operands are
widened to it, never narrowed. The logical operators take booleans and evaluate the right operand
only if it matters. Nullable primitives can be compared for equality alone: two undefined sides are
equal, one is not, and cells are read only when both are there.
-/
namespace TypedLowering
set_option autoImplicit false
open Ssa

namespace Gen

/-- The operand of a condition, which has to be a boolean. -/
def condition (generate : Generate) (n : Node) : Gen ValueId := do
  let v ← generate n
  if v.type = .boolean then operand v n.span
  else unsupported "condition" v.type.text n.span

/-! ## Arithmetic -/

/-- Rejects operands that are not numeric. -/
def requireArithmetic (op : BinaryOp) (v : Value) (span : Span) : Gen Unit :=
  match v.type.numericClass with
  | some .integer | some .float => return ()
  | _ => unsupported op.symbol v.type.text span

def requireInteger (op : BinaryOp) (v : Value) (span : Span) : Gen Unit :=
  if v.type.numericClass = some .integer then return ()
  else unsupported op.symbol v.type.text span

/-- The integer instruction of an arithmetic operator. -/
def integerInstruction : BinaryOp → BinOp
  | .add => .add
  | .sub => .sub
  | .mul => .mul
  | .div => .sdiv
  | _ => .srem

/-- The instruction of an arithmetic operator on doubles. -/
def floatInstruction : BinaryOp → BinOp
  | .add => .fadd
  | .sub => .fsub
  | .mul => .fmul
  | .div => .fdiv
  | _ => .frem

def arithmetic (op : BinaryOp) (lhs rhs : Value) (resultType : StaticType) (span : Span) :
    Gen Value := do
  requireArithmetic op lhs span
  requireArithmetic op rhs span
  let (t, inst) ← match resultType.numericClass with
    | some .integer => pure (StaticType.int, integerInstruction op)
    | some .float => pure (StaticType.number, floatInstruction op)
    | _ => unsupported op.symbol resultType.text span
  let l ← castOperand lhs t span
  let r ← castOperand rhs t span
  return .rvalue (← emitBinary inst l r) t

def power (op : BinaryOp) (lhs rhs : Value) (span : Span) : Gen Value := do
  requireArithmetic op lhs span
  requireArithmetic op rhs span
  let base ← castOperand lhs .number span
  let exponent ← castOperand rhs .number span
  return .rvalue (← emitPower base exponent span) .number

/-- A shift by the count modulo 32. -/
def shift (inst : BinOp) (l r : ValueId) : Gen ValueId := do
  let mask ← emitI32 31
  let count ← emitBinary .and r mask
  emitBinary inst l count

def bitwise (op : BinaryOp) (lhs rhs : Value) (span : Span) : Gen Value := do
  requireInteger op lhs span
  requireInteger op rhs span
  let l ← operand lhs span
  let r ← operand rhs span
  let result ← match op with
    | .bitAnd => emitBinary .and l r
    | .bitOr => emitBinary .or l r
    | .bitXor => emitBinary .xor l r
    | .shl => shift .shl l r
    | .shr => shift .ashr l r
    | _ => shift .lshr l r
  return .rvalue result .int

/-! ## Comparison -/

/-- The type in the heap cell of a nullable primitive. -/
def boxedPayload : StaticType → Option StaticType
  | .nullable inner => if inner.numericClass.isSome then some inner else none
  | _ => none

def isEquality : BinaryOp → Bool
  | .eq | .notEq | .strictEq | .strictNotEq => true
  | _ => false

def isNegated : BinaryOp → Bool
  | .notEq | .strictNotEq => true
  | _ => false

def intPredicate : BinaryOp → IntPredicate
  | .lt => .slt
  | .ltEq => .sle
  | .gt => .sgt
  | .gtEq => .sge
  | op => if isNegated op then .ne else .eq

def floatPredicate : BinaryOp → FloatPredicate
  | .lt => .olt
  | .ltEq => .ole
  | .gt => .ogt
  | .gtEq => .oge
  | op => if isNegated op then .une else .oeq

/-- Whether values of a type are pointers. -/
def isPointer (t : StaticType) : Bool :=
  match t.lowered .dummy with
  | .ok .ptr => true
  | _ => false

/-- Compares two operands as they are. -/
def compareWords (op : BinaryOp) (lhs rhs : Value) (span : Span) : Gen Value := do
  let l ← operand lhs span
  let r ← operand rhs span
  return .rvalue (← emit (.icmp (intPredicate op) l r)) .boolean

/-- Compares two values neither of which is a nullable primitive: integers, numbers, booleans and
references, the last two for equality only. -/
def comparePlain (op : BinaryOp) (lhs rhs : Value) (span : Span) : Gen Value := do
  match lhs.type.numericClass, rhs.type.numericClass with
  | some .integer, some .integer => compareWords op lhs rhs span
  | some .boolean, some .boolean =>
    if isEquality op then compareWords op lhs rhs span
    else unsupported op.symbol lhs.type.text span
  | some .integer, some .float | some .float, some .integer | some .float, some .float =>
    let l ← castOperand lhs .number span
    let r ← castOperand rhs .number span
    return .rvalue (← emit (.fcmp (floatPredicate op) l r)) .boolean
  | none, none =>
    if isEquality op && isPointer lhs.type && isPointer rhs.type then compareWords op lhs rhs span
    else unsupported op.symbol lhs.type.text span
  | _, _ => unsupported op.symbol lhs.type.text span

/-- One side of an equality with a nullable primitive. -/
structure EqualitySide where
  operand : ValueId
  /-- The type that is compared when both sides are there. -/
  payload : StaticType
  /-- Whether the operand is a cell. -/
  boxed : Bool

def equalitySide (v : Value) (span : Span) : Gen EqualitySide := do
  let x ← operand v span
  match boxedPayload v.type with
  | some payload => return ⟨x, payload, true⟩
  | none => return ⟨x, v.type, false⟩

/-- Whether a side is undefined; only a cell can be. -/
def emitIsUndefined (s : EqualitySide) : Gen ValueId := do
  if s.boxed then
    let null ← emitNull
    emit (.icmp .eq s.operand null)
  else emitBool false

/-- What is in the cell, or the operand itself. -/
def payloadValue (s : EqualitySide) (span : Span) : Gen Value := do
  if s.boxed then
    let lowered ← layout s.payload span
    return .rvalue (← emit (.load lowered s.operand)) s.payload
  else return .rvalue s.operand s.payload

/-- Equality with a nullable primitive on either side. -/
def compareNullable (lhs rhs : Value) (negated : Bool) (span : Span) : Gen Value := do
  let lhs ← equalitySide lhs span
  let rhs ← equalitySide rhs span
  let lhsUndefined ← emitIsUndefined lhs
  let rhsUndefined ← emitIsUndefined rhs
  let both ← emitBinary .and lhsUndefined rhsUndefined
  let either ← emitBinary .or lhsUndefined rhsUndefined
  let entry ← currentBlock
  let payloadBlock ← appendBlock "eq.payload"
  let merge ← appendBlock "eq.end"
  terminate (.condBr either merge payloadBlock)
  positionAt payloadBlock
  let l ← payloadValue lhs span
  let r ← payloadValue rhs span
  let equal ← operand (← comparePlain .strictEq l r span) span
  let payloadEnd ← currentBlock
  terminate (.br merge)
  positionAt merge
  let result ← emit (.phi .i1 [(both, entry), (equal, payloadEnd)])
  if negated then
    let truth ← emitBool true
    return .rvalue (← emitBinary .xor result truth) .boolean
  else return .rvalue result .boolean

/-- A comparison. -/
def compare (op : BinaryOp) (lhs rhs : Value) (span : Span) : Gen Value :=
  let lhsBoxed := (boxedPayload lhs.type).isSome
  if lhsBoxed || (boxedPayload rhs.type).isSome then
    if isEquality op then compareNullable lhs rhs (isNegated op) span
    else unsupported op.symbol (if lhsBoxed then lhs.type else rhs.type).text span
  else comparePlain op lhs rhs span

/-! ## Operators on nodes -/

/-- A binary operator whose operands are both evaluated. -/
def strictBinary (op : BinaryOp) (lhs rhs : Value) (resultType : StaticType) (span : Span) :
    Gen Value :=
  match op with
  | .add | .sub | .mul | .div | .rem => arithmetic op lhs rhs resultType span
  | .exp => power op lhs rhs span
  | .bitAnd | .bitOr | .bitXor | .shl | .shr | .ushr => bitwise op lhs rhs span
  | .eq | .notEq | .strictEq | .strictNotEq | .lt | .ltEq | .gt | .gtEq => compare op lhs rhs span
  | .and | .or => internal "short-circuit operator lowered strictly" span

/-- The operand of one side of a logical operator. -/
def logicalOperand (generate : Generate) (op : BinaryOp) (n : Node) (span : Span) :
    Gen ValueId := do
  let v ← generate n
  if v.type = .boolean then operand v span
  else unsupported op.symbol v.type.text span

/-- A logical operator, which evaluates the right operand in a block of its own. -/
def shortCircuit (generate : Generate) (op : BinaryOp) (left right : Node) (span : Span) :
    Gen Value := do
  let lhs ← logicalOperand generate op left span
  let lhsBlock ← currentBlock
  let rhsBlock ← appendBlock "logic.rhs"
  let merge ← appendBlock "logic.end"
  if op = .and then terminate (.condBr lhs rhsBlock merge)
  else terminate (.condBr lhs merge rhsBlock)
  positionAt rhsBlock
  let rhs ← logicalOperand generate op right span
  let rhsEnd ← currentBlock
  terminate (.br merge)
  positionAt merge
  return .rvalue (← emit (.phi .i1 [(lhs, lhsBlock), (rhs, rhsEnd)])) .boolean

def paren (generate : Generate) (n : Node) : Gen Value :=
  match n.form with
  | .paren inner => generate inner
  | _ => wrongForm .paren n

def binary (generate : Generate) (n : Node) : Gen Value := do
  match n.form with
  | .binary op left right =>
    let resultType ← nodeType n
    let v ←
      if op = .and ∨ op = .or then shortCircuit generate op left right n.span
      else do
        let lhs ← generate left
        let rhs ← generate right
        strictBinary op lhs rhs resultType n.span
    castImplicit v resultType n.span
  | _ => wrongForm .binary n

/-- The operand of a unary operator applied to a value. -/
def unaryOperand (op : UnaryOp) (v : Value) (span : Span) : Gen ValueId := do
  match op, v.type.numericClass with
  | .neg, some .integer =>
    let x ← operand v span
    let zero ← emitI32 0
    emitBinary .sub zero x
  | .neg, some .float => emit (.fneg (← operand v span))
  | .plus, some .integer | .plus, some .float => operand v span
  | .not, some .boolean =>
    let x ← operand v span
    let one ← emitBool true
    emitBinary .xor x one
  | .bitNot, some .integer =>
    let x ← operand v span
    let ones ← emitI32 (-1)
    emitBinary .xor x ones
  | _, _ => unsupported op.symbol v.type.text span

def unary (generate : Generate) (n : Node) : Gen Value := do
  match n.form with
  | .unary op inner =>
    let v ← generate inner
    let x ← unaryOperand op v n.span
    castImplicit (.rvalue x v.type) (← nodeType n) n.span
  | _ => wrongForm .unary n

/-- The instruction and the constant by which a variable of a type is changed. -/
def updateStep (t : StaticType) (op : UpdateOp) : Option (BinOp × Constant) :=
  match t.numericClass, op with
  | some .integer, .increment => some (.add, .i32 1)
  | some .integer, .decrement => some (.sub, .i32 1)
  | some .float, .increment => some (.fadd, .float (.ofInt 1))
  | some .float, .decrement => some (.fsub, .float (.ofInt 1))
  | _, _ => none

def update (generate : Generate) (n : Node) : Gen Value := do
  match n.form with
  | .update op before target =>
    match ← generate target with
    | .assignable a =>
      match updateStep a.type op with
      | none => unsupported op.symbol a.type.text n.span
      | some (inst, one) =>
        let old ← load a n.span
        let one ← emitConst one
        let new ← emitBinary inst old one
        store a new n.span
        return .rvalue (if before then new else old) a.type
    | _ => internal ("operand of `" ++ op.symbol ++ "` is not assignable") n.span
  | _ => wrongForm .update n

/-- An assignment. In a compound one the old value is read before the right side is evaluated. -/
def assignment (generate : Generate) (n : Node) : Gen Value := do
  match n.form with
  | .assign op target value =>
    match ← generate target with
    | .assignable a =>
      match op with
      | none => assign a (← generate value) n.span
      | some op =>
        if op = .and ∨ op = .or then unsupported (op.symbol ++ "=") a.type.text n.span
        else
          let current ← load a n.span
          let rhs ← generate value
          let result ← strictBinary op (.rvalue current a.type) rhs a.type n.span
          assign a result n.span
    | _ => internal "assignment to a non-assignable expression" n.span
  | _ => wrongForm .assign n

/-- One arm of a conditional; at type `void` it has no operand. -/
def conditionalArm (generate : Generate) (n : Node) (t : StaticType) (span : Span) :
    Gen (Option ValueId) := do
  let v ← generate n
  if t = .void then return none
  else return some (← castOperand v t span)

def conditional (generate : Generate) (n : Node) : Gen Value := do
  match n.form with
  | .conditional cond thenExpr elseExpr =>
    let t ← nodeType n
    let c ← condition generate cond
    let thenBlock ← appendBlock "cond.then"
    let elseBlock ← appendBlock "cond.else"
    let merge ← appendBlock "cond.end"
    terminate (.condBr c thenBlock elseBlock)
    positionAt thenBlock
    let thenValue ← conditionalArm generate thenExpr t n.span
    let thenEnd ← currentBlock
    terminate (.br merge)
    positionAt elseBlock
    let elseValue ← conditionalArm generate elseExpr t n.span
    let elseEnd ← currentBlock
    terminate (.br merge)
    positionAt merge
    match thenValue, elseValue with
    | some a, some b =>
      let lowered ← layout t n.span
      valueOf (← emit (.phi lowered [(a, thenEnd), (b, elseEnd)])) t n.span
    | _, _ => return .unit
  | _ => wrongForm .conditional n

def cast (generate : Generate) (n : Node) : Gen Value := do
  match n.form with
  | .cast inner =>
    let v ← generate inner
    castExplicit v (← nodeType n) n.span
  | _ => wrongForm .cast n

end Gen

end TypedLowering
