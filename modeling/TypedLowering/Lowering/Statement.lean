import TypedLowering.Lowering.Operator

/-!
Statements. What follows a jump in the same block goes into a fresh basic block that nothing leads
to, so that every instruction has a place.
-/
namespace TypedLowering
set_option autoImplicit false
open Ssa

namespace Gen

/-- A constant with an initial value is that value; all else gets a stack slot, which holds zero or
null if there is no initial value. -/
def variableDeclaration (generate : Generate) (n : Node) : Gen Value := do
  match n.form with
  | .variableDeclaration name init mutable =>
    let t ← nodeType n
    match init with
    | some init =>
      let x ← generateOperand generate init t
      if mutable then bindLocal name x t n.span
      else modifyFrame fun f => { f with scope := f.scope.bindConstant name x t }
    | none =>
      match Constant.zero (← layout t n.span) with
      | some zero => bindLocal name (← emitConst zero) t n.span
      | none => unsupported "variable of type" t.text n.span
    return .unit
  | _ => wrongForm .variableDeclaration n

def expressionStatement (generate : Generate) (n : Node) : Gen Value := do
  match n.form with
  | .expressionStatement e =>
    let _ ← generate e
    return .unit
  | _ => wrongForm .expressionStatement n

/-- Opens a block for statements that nothing leads to, if the current one already ends. -/
def openBlock : Gen Unit := do
  if ← isTerminated then positionAt (← appendBlock "dead")

/-- The statements of a block in order. -/
def statements (generate : Generate) : List Node → Gen Unit
  | [] => return ()
  | n :: rest => do
    openBlock
    let _ ← generate n
    statements generate rest

/-- A block has a scope of its own. -/
def block (generate : Generate) (n : Node) : Gen Value := do
  match n.form with
  | .block body =>
    let outer := (← frame).scope
    statements generate body
    setScope outer
    return .unit
  | _ => wrongForm .block n

def ifElse (generate : Generate) (n : Node) : Gen Value := do
  match n.form with
  | .ifElse cond thenBranch elseBranch =>
    let c ← condition generate cond
    let thenBlock ← appendBlock "if.then"
    match elseBranch with
    | none =>
      let merge ← appendBlock "if.end"
      terminate (.condBr c thenBlock merge)
      positionAt thenBlock
      let _ ← generate thenBranch
      branchIfOpen merge
      positionAt merge
    | some elseBranch =>
      let elseBlock ← appendBlock "if.else"
      let merge ← appendBlock "if.end"
      terminate (.condBr c thenBlock elseBlock)
      positionAt thenBlock
      let _ ← generate thenBranch
      branchIfOpen merge
      positionAt elseBlock
      let _ ← generate elseBranch
      branchIfOpen merge
      positionAt merge
    return .unit
  | _ => wrongForm .ifElse n

/-- The body of a loop, which ends by going on to `next`. -/
def loopBody (generate : Generate) (body : Node) (target : LoopTarget) (next : BlockId) :
    Gen Unit := do
  pushLoop target
  let _ ← generate body
  popLoop
  branchIfOpen next

def whileLoop (generate : Generate) (n : Node) : Gen Value := do
  match n.form with
  | .whileLoop cond body =>
    let header ← appendBlock "while.cond"
    let bodyBlock ← appendBlock "while.body"
    let exit ← appendBlock "while.end"
    terminate (.br header)
    positionAt header
    let c ← condition generate cond
    terminate (.condBr c bodyBlock exit)
    positionAt bodyBlock
    loopBody generate body ⟨exit, header⟩ header
    positionAt exit
    return .unit
  | _ => wrongForm .whileLoop n

def doWhile (generate : Generate) (n : Node) : Gen Value := do
  match n.form with
  | .doWhile body cond =>
    let bodyBlock ← appendBlock "do.body"
    let latch ← appendBlock "do.cond"
    let exit ← appendBlock "do.end"
    terminate (.br bodyBlock)
    positionAt bodyBlock
    loopBody generate body ⟨exit, latch⟩ latch
    positionAt latch
    let c ← condition generate cond
    terminate (.condBr c bodyBlock exit)
    positionAt exit
    return .unit
  | _ => wrongForm .doWhile n

/-- A part of a loop head that may be left out. -/
def generateOptional (generate : Generate) : Option Node → Gen Unit
  | none => return ()
  | some n => do
    let _ ← generate n

/-- The names that a `for` loop declares are known in the loop only. -/
def forLoop (generate : Generate) (n : Node) : Gen Value := do
  match n.form with
  | .forLoop init cond update body =>
    let outer := (← frame).scope
    generateOptional generate init
    let header ← appendBlock "for.cond"
    let bodyBlock ← appendBlock "for.body"
    let step ← appendBlock "for.update"
    let exit ← appendBlock "for.end"
    terminate (.br header)
    positionAt header
    match cond with
    | some cond =>
      let c ← condition generate cond
      terminate (.condBr c bodyBlock exit)
    | none => terminate (.br bodyBlock)
    positionAt bodyBlock
    loopBody generate body ⟨exit, step⟩ step
    positionAt step
    generateOptional generate update
    terminate (.br header)
    positionAt exit
    setScope outer
    return .unit
  | _ => wrongForm .forLoop n

/-- A `return`. In a function that returns nothing a value is evaluated and dropped. -/
def returnStatement (generate : Generate) (n : Node) : Gen Value := do
  match n.form with
  | .ret value =>
    let t := (← frame).returnType
    match value with
    | some v =>
      if t = .void then
        let _ ← generate v
        terminate (.ret none)
      else terminate (.ret (some (← generateOperand generate v t)))
    | none =>
      if t = .void then terminate (.ret none)
      else internal ("`return` without a value in a function returning `" ++ t.text ++ "`") n.span
    return .unit
  | _ => wrongForm .ret n

def breakLoop (n : Node) : Gen Value := do
  match (← frame).loops with
  | target :: _ =>
    terminate (.br target.breakTo)
    return .unit
  | [] => internal "`break` outside of a loop" n.span

def continueLoop (n : Node) : Gen Value := do
  match (← frame).loops with
  | target :: _ =>
    terminate (.br target.continueTo)
    return .unit
  | [] => internal "`continue` outside of a loop" n.span

end Gen

end TypedLowering
