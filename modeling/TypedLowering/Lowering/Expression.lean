import TypedLowering.Lowering.Literal
import TypedLowering.Lowering.ObjectMember

/-!
Names, `this`, member and element access, calls and `new`.
-/
namespace TypedLowering
set_option autoImplicit false
open Ssa

namespace Gen

/-- A name: first the locals, then the global names. A function is no value. -/
def identifier (n : Node) : Gen Value := do
  match n.form with
  | .identifier name =>
    match (← frame).scope.get? name with
    | some (.constant x t) => valueOf x t n.span
    | some (.slot ptr lowered t) => return .assignable ⟨.slot ptr lowered, t⟩
    | none =>
      match (← program).symbols.get? name with
      | some (.builtin b) => return .object (.ofBuiltin b)
      | some (.cls cls) => return .object (.ofClass (← descriptor cls))
      | some (.function _) => unsupported "function reference" name n.span
      | none => internal ("unresolved identifier `" ++ name ++ "`") n.span
  | _ => wrongForm .identifier n

def this (n : Node) : Gen Value := do
  match (← frame).this with
  | some o => return .object o
  | none => internal "`this` outside of an instance method" n.span

def member (generate : Generate) (n : Node) : Gen Value := do
  match n.form with
  | .member object property =>
    let target ← intoObject (← generate object) n.span
    getField target property n.span
  | _ => wrongForm .member n

def index (generate : Generate) (n : Node) : Gen Value := do
  match n.form with
  | .index object index =>
    let target ← intoObject (← generate object) n.span
    indexObject generate target index n.span
  | _ => wrongForm .index n

/-- A call. If a member is called its object decides how; any other call goes by its signature. -/
def call (generate : Generate) (n : Node) : Gen Value := do
  match n.form with
  | .call callee args signature =>
    match callee.form with
    | .member object property =>
      let receiver ← intoObject (← generate object) callee.span
      callMethod generate receiver property args signature n.span
    | _ =>
      match signature with
      | some signature => emitCall generate signature none args n.span
      | none => internal "call without a resolved signature" n.span
  | _ => wrongForm .call n

/-- `new` of the type of the node. -/
def construct (generate : Generate) (n : Node) : Gen Value := do
  match n.form with
  | .construct _ args signature =>
    constructObject generate (← nodeType n) args signature n.span
  | _ => wrongForm .construct n

end Gen

end TypedLowering
