import TypedLowering.Lowering.Gen

/-!
Reading and writing values: operands of values, loads from and stores to places, array elements,
and the view of a value as an object.
-/
namespace TypedLowering
set_option autoImplicit false
open Ssa

namespace Gen

/-! ## Array elements -/

/-- The field of an array header that holds the length. -/
def lengthField : Nat := 0

/-- The field of an array header that points to the elements. -/
def dataField : Nat := 2

/-- The length of an array. -/
def arrayLength (array : ValueId) : Gen ValueId := do
  let header ← arrayHeader
  let ptr ← emit (.fieldPtr array header lengthField)
  emit (.load .i32 ptr)

/-- The address of an element, without a check of the bounds. -/
def elementAddress (l : ArrayLayout) (array index : ValueId) : Gen ValueId := do
  let header ← arrayHeader
  let dataPtr ← emit (.fieldPtr array header dataField)
  let data ← emit (.load .ptr dataPtr)
  emit (.elementPtr data l.storage.type index)

def loadElement (l : ArrayLayout) (array index : ValueId) (span : Span) : Gen ValueId := do
  match (← config).access with
  | .checked => callSupport (.arrayGet l.storage) [array, index] span
  | .unchecked =>
    let ptr ← elementAddress l array index
    emit (.load l.storage.type ptr)

def storeElement (l : ArrayLayout) (array index value : ValueId) (span : Span) : Gen Unit := do
  match (← config).access with
  | .checked =>
    let _ ← callSupport (.arraySet l.storage) [array, index, value] span
  | .unchecked =>
    let ptr ← elementAddress l array index
    emitStore value ptr

/-! ## Places -/

/-- Reads what a place holds. -/
def load (a : Assignable) (span : Span) : Gen ValueId := do
  match a.place with
  | .slot ptr lowered => emit (.load lowered ptr)
  | .field object struct index lowered =>
    let ptr ← emit (.fieldPtr object struct index)
    emit (.load lowered ptr)
  | .element array index l => loadElement l array index span

/-- Stores an operand that has the type of the place. -/
def store (a : Assignable) (operand : ValueId) (span : Span) : Gen Unit := do
  match a.place with
  | .slot ptr _ => emitStore operand ptr
  | .field object struct index _ =>
    let ptr ← emit (.fieldPtr object struct index)
    emitStore operand ptr
  | .element array index l => storeElement l array index operand span

/-! ## Objects -/

/-- The object of a static type at an address. -/
def objectAt (address : ValueId) (t : StaticType) (span : Span) : Gen ObjectRef := do
  match t with
  | .object cls _ => return .instanceAt (← descriptor cls) address
  | .array _ =>
    let l ← ofExcept (ArrayLayout.of t span)
    return .arrayAt l address
  | .builtin b => return .ofBuiltin b
  | _ => internal ("`" ++ t.text ++ "` is not an object type") span

/-- The address of an object; what has none is the null pointer. -/
def objectOperand (o : ObjectRef) : Gen ValueId :=
  match o.address with
  | some a => pure a
  | none => emitNull

/-- The address of an object that has to have one. -/
def requireAddress (o : ObjectRef) (span : Span) : Gen ValueId :=
  match o.address with
  | some a => pure a
  | none => internal ("`" ++ o.typeName ++ "` used without an instance") span

/-! ## Values -/

/-- The operand of a value; a place is read. -/
def operand (v : Value) (span : Span) : Gen ValueId :=
  match v with
  | .unit => internal ("a `" ++ StaticType.void.text ++ "` expression has no value") span
  | .rvalue x _ => pure x
  | .assignable a => load a span
  | .object o => objectOperand o

/-- The value with an operand and a static type. -/
def valueOf (x : ValueId) (t : StaticType) (span : Span) : Gen Value := do
  match t with
  | .void => return .unit
  | .array _ | .object _ _ | .builtin _ => return .object (← objectAt x t span)
  | .int | .number | .boolean | .nullable _ | .param _ => return .rvalue x t

/-- The view of a value as an object, if its type has members. -/
def intoObject (v : Value) (span : Span) : Gen ObjectRef := do
  match v with
  | .object o => return o
  | _ =>
    if v.type.isObject then objectAt (← operand v span) v.type span
    else unsupported "member access" v.type.text span

end Gen

end TypedLowering
