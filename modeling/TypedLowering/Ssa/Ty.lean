/-!
Types of low-level values, with their size and alignment in bytes.
-/
namespace TypedLowering.Ssa
set_option autoImplicit false

/-- The types of low-level values. -/
inductive Ty where
  | void
  | i1
  | i32
  | i64
  | f64
  | ptr
  deriving DecidableEq, Repr, Inhabited

namespace Ty

/-- Bytes that a stored value takes. -/
def size : Ty → Nat
  | .void => 0
  | .i1 => 1
  | .i32 => 4
  | .i64 | .f64 | .ptr => 8

/-- The address of a stored value is a multiple of its alignment. -/
def align : Ty → Nat
  | .void => 1
  | .i1 => 1
  | .i32 => 4
  | .i64 | .f64 | .ptr => 8

def isFloat : Ty → Bool
  | .f64 => true
  | _ => false

/-- The spelling in a printed module. -/
def text : Ty → String
  | .void => "void"
  | .i1 => "i1"
  | .i32 => "i32"
  | .i64 => "i64"
  | .f64 => "double"
  | .ptr => "ptr"

theorem align_pos (t : Ty) : 0 < t.align := by cases t <;> decide

/-- Every type is as large as its alignment or has no size at all. -/
theorem size_eq_align_or_zero (t : Ty) : t.size = t.align ∨ t.size = 0 := by
  cases t <;> decide

end Ty

end TypedLowering.Ssa
