import TypedLowering.Lowering.Error
import TypedLowering.Source.StaticType
import TypedLowering.Ssa.Ty

/-!
How values of static types are represented: the low-level type of a value, the family of operators
of a primitive type, and the storage of array elements. Heap objects and nullable values are
pointers; primitive array elements are stored in place.
-/
namespace TypedLowering
set_option autoImplicit false
open Ssa (Ty)

/-- The low-level type of values of a static type. A type parameter has none. -/
def StaticType.lowered (t : StaticType) (span : Span) : Except LoweringError Ty :=
  match t with
  | .int => .ok .i32
  | .number => .ok .f64
  | .boolean => .ok .i1
  | .void => .ok .void
  | .array _ | .nullable _ | .object _ _ | .builtin _ => .ok .ptr
  | .param _ =>
    .error ⟨.internal "unsubstituted type parameter reached code generation", span⟩

/-- The families of operators. -/
inductive NumericClass where
  | integer
  | float
  | boolean
  deriving DecidableEq, Repr

/-- The family of a primitive type. -/
def StaticType.numericClass : StaticType → Option NumericClass
  | .int => some .integer
  | .number => some .float
  | .boolean => some .boolean
  | _ => none

/-- How the elements of an array are stored. -/
inductive ElementStorage where
  /-- In place, as values of a low-level type. -/
  | unboxed (type : Ty)
  /-- As pointers. -/
  | boxed
  deriving DecidableEq, Repr

namespace ElementStorage

def type : ElementStorage → Ty
  | .unboxed t => t
  | .boxed => .ptr

/-- The end of the names of the entry points for this storage. -/
def suffix (s : ElementStorage) : String :=
  match s.type with
  | .i1 => "i1"
  | .i32 => "i32"
  | .f64 => "f64"
  | .i64 => "i64"
  | .ptr | .void => "ptr"

end ElementStorage

/-- Element type and storage of an array type. -/
structure ArrayLayout where
  element : StaticType
  storage : ElementStorage
  deriving DecidableEq, Repr

namespace ArrayLayout

/-- The layout of an array type; there are no arrays of nothing and none of built-in objects. -/
def of (t : StaticType) (span : Span) : Except LoweringError ArrayLayout :=
  match t with
  | .array element =>
    match element with
    | .int => .ok ⟨element, .unboxed .i32⟩
    | .number => .ok ⟨element, .unboxed .f64⟩
    | .boolean => .ok ⟨element, .unboxed .i1⟩
    | .nullable _ | .array _ | .object _ _ => .ok ⟨element, .boxed⟩
    | .void => .error ⟨.unsupportedOperation "array of" "void", span⟩
    | .builtin b => .error ⟨.unsupportedOperation "array of" b.name, span⟩
    | .param _ => .error ⟨.internal "array of an unsubstituted type parameter", span⟩
  | _ => .error ⟨.internal "array layout of a non-array type", span⟩

/-- The array type. -/
def type (l : ArrayLayout) : StaticType := .array l.element

end ArrayLayout

end TypedLowering
