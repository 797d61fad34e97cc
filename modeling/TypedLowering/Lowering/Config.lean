import TypedLowering.Ssa.Instruction

/-!
Options of code generation.
-/
namespace TypedLowering
set_option autoImplicit false

/-- How array elements are reached. -/
inductive AccessMode where
  /-- Through entry points that check the bounds. -/
  | checked
  /-- By address, without a check. -/
  | unchecked
  deriving DecidableEq, Repr

/-- Options of code generation. -/
structure Config where
  moduleName : String := "main"
  access : AccessMode := .checked
  /-- Attributes of pure numeric functions and their calls. -/
  intrinsicHints : Ssa.Attributes := ⟨true, true, false⟩
  /-- Constant array literals longer than this become constant data of the module. -/
  literalBufferThreshold : Nat := 16
  deriving DecidableEq, Repr

/-- The defaults, adjusted by the value of the environment variable for unchecked access: any value
but the empty one and `0` selects it. -/
def Config.ofEnvironment (uncheckedAccess : Option String) : Config :=
  match uncheckedAccess with
  | none => {}
  | some v => if v = "" ∨ v = "0" then {} else { access := .unchecked }

end TypedLowering
