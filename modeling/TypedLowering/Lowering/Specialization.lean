import TypedLowering.Lowering.Mangling
import TypedLowering.Lowering.Representation
import TypedLowering.Source.Program
import TypedLowering.Ssa.Handle

/-!
Specializations: a declared function at given type arguments and a given number of arguments. An
omitted parameter is no parameter of the low-level function; the body computes it from its default.
So calls with different numbers of arguments lead to different specializations.
-/
namespace TypedLowering
set_option autoImplicit false

/-- A parameter of a specialization. -/
structure ResolvedParam where
  name : String
  type : StaticType
  optional : Bool
  variadic : Bool
  default : Option Node
  /-- Whether the caller passes it. -/
  supplied : Bool
  span : Span

/-- A function at type arguments and a number of arguments. -/
structure Specialization where
  func : FuncId
  name : String
  owner : Option ClassId
  params : List ResolvedParam
  ret : StaticType
  isInstance : Bool
  typeArgs : List StaticType
  subst : Substitution

namespace Specialization

/-- The name of a function with its class in front. -/
def qualifiedName (p : Program) (owner : Option ClassId) (name : String) : String :=
  match owner with
  | some c => p.className c ++ "." ++ name
  | none => name

/-- A type of the declaration at the type arguments, which has to be free of type parameters. -/
def concreteType (name : String) (subst : Substitution) (span : Span) (t : StaticType) :
    Except LoweringError StaticType :=
  let t := t.substitute subst
  if t.isGeneric then
    .error ⟨.internal ("`" ++ name ++ "` specialized at generic type `" ++ t.text ++ "`"), span⟩
  else .ok t

/-- A parameter of the declaration. The first `argCount` are supplied, and a rest parameter always:
it receives the arguments left over, possibly none. -/
def resolveParam (p : Program) (decl : FunctionDecl) (subst : Substitution) (argCount : Nat)
    (span : Span) (param : Param) (index : Nat) : Except LoweringError ResolvedParam := do
  let supplied := param.variadic || index < argCount
  if !supplied && param.default.isNone then
    throw ⟨.missingArgument (qualifiedName p decl.owner decl.name) param.name, span⟩
  let type ← concreteType decl.name subst span param.type
  return {
    name := param.name, type, optional := param.optional, variadic := param.variadic
    default := param.default, supplied, span := param.span }

/-- Resolves a declaration for a call with type arguments and a number of arguments. -/
def resolve (p : Program) (func : FuncId) (decl : FunctionDecl) (typeArgs : List StaticType)
    (argCount : Nat) (span : Span) : Except LoweringError Specialization := do
  if decl.typeParams.length ≠ typeArgs.length then
    throw ⟨.internal ("`" ++ decl.name ++ "` expects " ++ toString decl.typeParams.length
      ++ " type arguments, the call site has " ++ toString typeArgs.length), span⟩
  let subst : Substitution := .ofList (decl.typeParams.zip typeArgs)
  if decl.params.length < argCount && !decl.params.any (·.variadic) then
    throw ⟨.internal ("`" ++ decl.name ++ "` takes " ++ toString decl.params.length
      ++ " arguments, the call site passes " ++ toString argCount), span⟩
  let params ← decl.params.zipIdx.mapM fun (param, i) =>
    resolveParam p decl subst argCount span param i
  let ret ← concreteType decl.name subst span decl.ret
  return {
    func, name := decl.name, owner := decl.owner, params, ret, isInstance := decl.isInstance
    typeArgs, subst }

/-- The parameters that the caller passes. -/
def suppliedParams (s : Specialization) : List ResolvedParam := s.params.filter (·.supplied)

def displayName (s : Specialization) (p : Program) : String := qualifiedName p s.owner s.name

/-- The symbol of the definition. -/
def symbol (s : Specialization) (p : Program) : String :=
  Mangling.symbol (s.owner.map p.className) s.name (s.suppliedParams.map (·.type)) s.typeArgs

/-- The low-level parameters: the receiver of an instance function, then what is supplied. -/
def loweredParams (s : Specialization) : Except LoweringError (List Ssa.Ty) := do
  let rest ← s.suppliedParams.mapM fun p => p.type.lowered p.span
  return (if s.isInstance then [.ptr] else []) ++ rest

end Specialization

/-- A request for the definition of a specialization, with the answer it got. -/
structure Request where
  specialization : Specialization
  definition : Ssa.FunctionId
  /-- Whether the definition was there already. -/
  cached : Bool

end TypedLowering
