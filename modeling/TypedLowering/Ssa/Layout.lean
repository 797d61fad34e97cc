import TypedLowering.Ssa.Ty

/-!
Struct layouts under natural alignment: each field stands at the least multiple of its alignment
that is not below the end of the field before it.
-/
namespace TypedLowering.Ssa
set_option autoImplicit false

/-- The least multiple of `align` that is not below `offset`. -/
def alignTo (offset align : Nat) : Nat := (offset + align - 1) / align * align

/-- A named struct: the types of its fields in order. -/
structure StructDef where
  name : String
  fields : List Ty
  deriving DecidableEq, Repr

namespace StructDef

/-- Offsets of the fields of a struct whose part before them ends at `start`. -/
def offsetsFrom (start : Nat) : List Ty → List Nat
  | [] => []
  | t :: rest =>
    let here := alignTo start t.align
    here :: offsetsFrom (here + t.size) rest

/-- The end of the last field, when the part before the fields ends at `start`. -/
def endFrom (start : Nat) : List Ty → Nat
  | [] => start
  | t :: rest => endFrom (alignTo start t.align + t.size) rest

/-- Byte offset of each field. -/
def offsets (d : StructDef) : List Nat := offsetsFrom 0 d.fields

/-- The largest alignment among the fields, at least one. -/
def align (d : StructDef) : Nat := (d.fields.map Ty.align).foldl max 1

/-- The size in bytes, padded to the alignment so that instances can follow one another. -/
def size (d : StructDef) : Nat := alignTo (endFrom 0 d.fields) d.align

@[simp] theorem length_offsetsFrom (start : Nat) (ts : List Ty) :
    (offsetsFrom start ts).length = ts.length := by
  induction ts generalizing start with
  | nil => rfl
  | cons t rest ih => simp [offsetsFrom, ih]

end StructDef

end TypedLowering.Ssa
