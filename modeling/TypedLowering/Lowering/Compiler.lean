import TypedLowering.Diagnostic.Queue
import TypedLowering.Lowering.Dispatch

/-!
Compilation of a program: its entry points are specialized one after the other on one unit, and
everything they reach is generated on demand. An entry point that fails leaves what was done for it
in the unit.
-/
namespace TypedLowering
set_option autoImplicit false
open Ssa

/-! ## Depth of the recursion -/

namespace Program

/-- The number of type arguments written in the program. -/
def typeArgCount (p : Program) : Nat :=
  p.nodes.foldr (fun n total => n.typeArgCount + total) 0

/-- A bound on the number of specializations, if calls pass only closed types and type parameters:
a choice of arguments passed and of type arguments for each function. -/
def specializationBound (p : Program) : Nat :=
  let choices := p.typeArgCount + 1
  p.functions.foldr (fun f total =>
    (f.params.length + 1) * Nat.pow choices f.typeParams.length + total) 0

/-- A bound on the depth of generation. A part of a node was built before it, so a path down the
tree of a function meets each node of the program at most once; each nested specialization takes
at most one such path. Trees may share parts, so the nodes are counted in the list of the program
and not along the trees. The constant leaves room for programs whose calls build up types. -/
def depthBound (p : Program) : Nat :=
  (p.nodes.size + 1) * (p.specializationBound + 1) + 0x100000000

end Program

/-! ## Compiler -/

/-- A unit under compilation. -/
structure Compiler where
  env : Env
  unit : UnitState

namespace Compiler

/-- A compiler for a program, still without functions. -/
def new (program : Program) (config : Config) (registry : Registry) : Compiler :=
  { env := { program, config, registry }, unit := { module := { name := config.moduleName } } }

/-- Specializes an entry point with all its parameters supplied, and exports it under its name. -/
def entry (func : FuncId) : Gen FunctionId := do
  let decl ← Gen.functionDecl func
  if decl.isGeneric then Gen.internal ("entry point `" ++ decl.name ++ "` is generic") decl.span
  else if decl.body.isNone then
    Gen.internal ("entry point `" ++ decl.name ++ "` has no body") decl.span
  else
    let p ← Gen.program
    let argCount := (decl.params.filter fun q => !q.variadic).length
    let s ← Gen.ofExcept (Specialization.resolve p func decl [] argCount decl.span)
    let id ← Gen.specialize (Gen.generate p.depthBound) s decl.span
    Gen.modifyUnit fun u => { u with module := u.module.addExport decl.name id }
    return id

/-- Compiles an entry point; the compiler afterwards holds whatever was generated. -/
def compileEntry (c : Compiler) (func : FuncId) : Except Failure FunctionId × Compiler :=
  match (entry func).run c.env { unit := c.unit, frame := .outside } with
  | .ok id s => (.ok id, { c with unit := s.unit })
  | .error e s => (.error e, { c with unit := s.unit })

/-- Compiles entry points in order up to the first that fails. Generic ones are passed over: they
have no instance of their own. -/
def compileAll (c : Compiler) : List FuncId → Except Failure Compiler
  | [] => .ok c
  | func :: rest =>
    match c.env.program.function? func with
    | none => .error .dangling
    | some decl =>
      if decl.isGeneric then c.compileAll rest
      else
        match c.compileEntry func with
        | (.ok _, c) => c.compileAll rest
        | (.error e, _) => .error e

end Compiler

/-- A compiled program. -/
structure Output where
  module : Module
  /-- Whether the module has to be linked with the collector. -/
  gcRequired : Bool
  generated : Nat
  cacheHits : Nat

/-- Compiles the entry points of a program. -/
def compile (program : Program) (config : Config) : Except Failure Output := do
  let c ← (Compiler.new program config .standard).compileAll program.entryPoints
  return {
    module := c.unit.module
    gcRequired := c.unit.gcRequired
    generated := c.unit.generated
    cacheHits := c.unit.cacheHits }

/-- Compiles a program and reports the error it fails with. -/
def compileReporting (program : Program) (config : Config) (queue : DiagnosticQueue) :
    Except Failure Output × DiagnosticQueue :=
  match compile program config with
  | .ok out => (.ok out, queue)
  | .error (.reported e) => (.error (.reported e), (queue.add e.toDiagnostic).2)
  | .error e => (.error e, queue)

end TypedLowering
