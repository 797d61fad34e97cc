import TypedLowering.Data.Dict
import TypedLowering.Ssa.Handle
import TypedLowering.Ssa.Ty

/-!
Lexical scopes of a function body. A name is bound to a value that never changes or to a stack
slot. A scope is a plain value, so an inner scope is a copy that the outer one does not see.
-/
namespace TypedLowering
set_option autoImplicit false
open Ssa (Ty ValueId)

/-- What a local name stands for, with static types of type `τ`. -/
inductive Binding (τ : Type) where
  /-- A value. -/
  | constant (value : ValueId) (type : τ)
  /-- A stack slot for values of a low-level type. -/
  | slot (ptr : ValueId) (lowered : Ty) (type : τ)
  deriving DecidableEq, Repr

/-- The names in scope. -/
abbrev Scope (ν τ : Type) := Dict ν (Binding τ)

namespace Scope

variable {ν τ : Type} [DecidableEq ν]

def bindConstant (s : Scope ν τ) (name : ν) (value : ValueId) (type : τ) : Scope ν τ :=
  s.insert name (.constant value type)

def bindSlot (s : Scope ν τ) (name : ν) (ptr : ValueId) (lowered : Ty) (type : τ) : Scope ν τ :=
  s.insert name (.slot ptr lowered type)

end Scope

end TypedLowering
