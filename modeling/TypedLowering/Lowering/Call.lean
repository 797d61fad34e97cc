import TypedLowering.Lowering.Conversion

/-!
Calls of declared functions. A specialization is generated at most once: its definition is entered
in the module and in the table of specializations before its body is generated, so that a recursive
call finds it there. A function without body becomes an external declaration.
-/
namespace TypedLowering
set_option autoImplicit false
open Ssa

namespace Gen

/-- An array of operands. -/
def arrayOfOperands (l : ArrayLayout) (elements : List ValueId) (span : Span) : Gen ValueId := do
  let length ← emitI32 elements.length
  callSupport (.arrayNew l.storage) (length :: elements) span

/-- Enters the definition of a specialization, still without blocks. -/
def enterDefinition (s : Specialization) (symbol : String) (params : List Ty) (ret : Ty) :
    Gen FunctionId := do
  let (id, m) := (← get).unit.module.define symbol params ret .internal
  modifyUnit fun u =>
    { u with
      module := m
      specializations := u.specializations.insert symbol id
      generated := u.generated + 1
      requests := ⟨s, id, false⟩ :: u.requests }
  return id

/-- Runs the generation of a body in the frame of its function, which gets its first block, and
returns to the frame before. -/
def inFunction (id : FunctionId) (subst : Substitution) (returnType : StaticType)
    (body : Gen Unit) : Gen Unit := do
  let outer ← frame
  modifyFrame fun _ => { Frame.outside with function := id, subst, returnType }
  positionAt (← appendBlock "entry")
  body
  modifyFrame fun _ => outer

/-- Ends the open block of a body: a function that returns nothing returns, any other does not get
here. -/
def finishBody : Gen Unit := do
  if !(← isTerminated) then
    if (← frame).returnType = .void then terminate (.ret none) else terminate .unreachable

/-- Binds the parameters in order. A supplied one takes the next low-level parameter, an omitted one
the value of its default. -/
def bindParams (generate : Generate) : Nat → List ResolvedParam → Gen Unit
  | _, [] => return ()
  | next, p :: rest => do
    if p.supplied then
      bindLocal p.name (Function.param next) p.type p.span
      bindParams generate (next + 1) rest
    else
      match p.default with
      | some d =>
        bindLocal p.name (← generateOperand generate d p.type) p.type p.span
        bindParams generate next rest
      | none => internal "omitted parameter without a default" p.span

/-- Generates the body of a specialization. -/
def generateBody (generate : Generate) (s : Specialization) (body : Node) (span : Span) :
    Gen Unit := do
  if s.isInstance then
    match s.owner with
    | none => internal ("instance method `" ++ s.name ++ "` has no owning class") span
    | some owner =>
      let d ← descriptor owner
      modifyFrame fun f => { f with this := some (.instanceAt d (Function.param 0)) }
  bindParams generate (if s.isInstance then 1 else 0) s.params
  let _ ← generate body
  finishBody

/-- The function of a specialization, which is generated if it is not there yet. -/
def specialize (generate : Generate) (s : Specialization) (span : Span) : Gen FunctionId := do
  let params ← ofExcept s.loweredParams
  let ret ← layout s.ret span
  match (← functionDecl s.func).body with
  | none => declareExternal s.name params ret .none false span
  | some body =>
    let symbol := s.symbol (← program)
    match (← get).unit.specializations.get? symbol with
    | some id =>
      modifyUnit fun u =>
        { u with cacheHits := u.cacheHits + 1, requests := ⟨s, id, true⟩ :: u.requests }
      return id
    | none =>
      let id ← enterDefinition s symbol params ret
      inFunction id s.subst s.ret (generateBody generate s body span)
      return id

/-- The operands that a call passes for parameters from number `index` on: the argument at its
place, or for a rest parameter the array of all arguments from there. -/
def argumentOperands (generate : Generate) (args : List Node) (span : Span) :
    Nat → List ResolvedParam → Gen (List ValueId)
  | _, [] => return []
  | index, p :: rest => do
    let here ←
      if p.variadic then do
        let l ← match p.type with
          | .array _ => ofExcept (ArrayLayout.of p.type p.span)
          | _ => internal "rest parameter without an array type" p.span
        let elements ← (args.drop index).mapM fun a => generateOperand generate a l.element
        pure [← arrayOfOperands l elements span]
      else if p.supplied then
        match args[index]? with
        | some a => do pure [← generateOperand generate a p.type]
        | none => throw .dangling
      else pure []
    return here ++ (← argumentOperands generate args span (index + 1) rest)

/-- A call through a signature; instance functions get the address of the receiver. -/
def emitCall (generate : Generate) (signature : Signature) (receiver : Option ValueId)
    (args : List Node) (span : Span) : Gen Value := do
  let typeArgs ← signature.typeArgs.mapM resolveType
  let decl ← functionDecl signature.func
  let s ← ofExcept
    (Specialization.resolve (← program) signature.func decl typeArgs args.length span)
  let operands ← argumentOperands generate args span 0 s.params
  let callee ← specialize generate s span
  let result ← callFunction callee (receiver.toList ++ operands) .none
  valueOf result s.ret span

end Gen

end TypedLowering
