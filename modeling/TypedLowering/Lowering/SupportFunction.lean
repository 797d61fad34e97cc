import TypedLowering.Lowering.Representation
import TypedLowering.Ssa.Instruction

/-!
Entry points of the support library that compiled code calls for heap objects, boxed values and
arrays. Each is declared when it is first used; a module that calls one that allocates has to be
linked with the collector.
-/
namespace TypedLowering
set_option autoImplicit false
open Ssa (Ty Attributes)

/-- A function of the support library. -/
inductive SupportFunction where
  /-- Memory for an object, by size and alignment. -/
  | objectAlloc
  /-- A heap cell for a primitive value. -/
  | box (type : Ty)
  /-- An array of the operands behind the length. -/
  | arrayNew (storage : ElementStorage)
  /-- A copy of the elements in a buffer. -/
  | arrayFromBuffer (storage : ElementStorage)
  /-- An array of zeros. -/
  | arrayWithLength (storage : ElementStorage)
  | arrayPush (storage : ElementStorage)
  | arrayPop (storage : ElementStorage)
  | arrayGet (storage : ElementStorage)
  | arraySet (storage : ElementStorage)
  | mathRandom
  deriving DecidableEq, Repr

namespace SupportFunction

/-- The end of the name of a boxing function. -/
def scalarSuffix : Ty → String
  | .i1 => "i1"
  | .i32 => "i32"
  | .i64 => "i64"
  | .f64 => "f64"
  | .ptr => "ptr"
  | .void => "void"

def symbol : SupportFunction → String
  | .objectAlloc => "brisk_object_alloc"
  | .box t => "brisk_box_" ++ scalarSuffix t
  | .arrayNew s => "brisk_array_new_" ++ s.suffix
  | .arrayFromBuffer s => "brisk_array_from_buffer_" ++ s.suffix
  | .arrayWithLength s => "brisk_array_with_length_" ++ s.suffix
  | .arrayPush s => "brisk_array_push_" ++ s.suffix
  | .arrayPop s => "brisk_array_pop_" ++ s.suffix
  | .arrayGet s => "brisk_array_get_" ++ s.suffix
  | .arraySet s => "brisk_array_set_" ++ s.suffix
  | .mathRandom => "brisk_math_random"

def params : SupportFunction → List Ty
  | .objectAlloc => [.i64, .i64]
  | .box t => [t]
  | .arrayNew _ => [.i32]
  | .arrayFromBuffer _ => [.ptr, .i32]
  | .arrayWithLength _ => [.i32]
  | .arrayPush s => [.ptr, s.type]
  | .arrayPop _ => [.ptr]
  | .arrayGet _ => [.ptr, .i32]
  | .arraySet s => [.ptr, .i32, s.type]
  | .mathRandom => []

def ret : SupportFunction → Ty
  | .objectAlloc | .box _ | .arrayNew _ | .arrayFromBuffer _ | .arrayWithLength _ => .ptr
  | .arrayPush _ => .i32
  | .arrayPop s | .arrayGet s => s.type
  | .arraySet _ => .void
  | .mathRandom => .f64

/-- Whether further arguments may follow. -/
def variadic : SupportFunction → Bool
  | .arrayNew _ => true
  | _ => false

/-- Growing an array and checking its bounds can fail; the rest cannot. -/
def attributes : SupportFunction → Attributes
  | .objectAlloc | .box _ | .arrayNew _ | .arrayFromBuffer _ | .arrayWithLength _ =>
    ⟨false, true, true⟩
  | .mathRandom => ⟨false, true, false⟩
  | .arrayPush _ | .arrayPop _ | .arrayGet _ | .arraySet _ => .none

/-- Whether a call can allocate memory that is collected. -/
def allocates : SupportFunction → Bool
  | .objectAlloc | .box _ | .arrayNew _ | .arrayFromBuffer _ | .arrayWithLength _
  | .arrayPush _ => true
  | .arrayPop _ | .arrayGet _ | .arraySet _ | .mathRandom => false

end SupportFunction

end TypedLowering
