import TypedLowering.Lowering.Call
import TypedLowering.Lowering.MathObject

/-!
Operations on objects: reading a member, calling a method, `new` and indexing, for class instances,
arrays and built-in objects.
-/
namespace TypedLowering
set_option autoImplicit false
open Ssa

namespace Gen

/-! ## Class instances -/

/-- A field of a class instance, as a place. -/
def classField (d : ClassDescriptor) (this : ObjectRef) (member : String) (span : Span) :
    Gen Value := do
  match d.field? member with
  | some (field, index) =>
    let object ← requireAddress this span
    return .assignable ⟨.field object d.layout index field.lowered, field.type⟩
  | none =>
    if (d.methods.get? member).isSome then
      unsupported ("method reference `" ++ member ++ "`") d.name span
    else internal ("class `" ++ d.name ++ "` has no field `" ++ member ++ "`") span

/-- A method call; a static method gets no receiver. -/
def classCall (generate : Generate) (d : ClassDescriptor) (this : ObjectRef) (member : String)
    (args : List Node) (signature : Option Signature) (span : Span) : Gen Value := do
  match signature with
  | none =>
    internal ("call of `" ++ d.name ++ "." ++ member ++ "` has no resolved signature") span
  | some signature =>
    if (← functionDecl signature.func).isInstance then
      emitCall generate signature (some (← requireAddress this span)) args span
    else emitCall generate signature none args span

/-- `new` of a class: memory for the instance, then the constructor if there is one. -/
def classNew (generate : Generate) (d : ClassDescriptor) (args : List Node)
    (signature : Option Signature) (span : Span) : Gen Value := do
  let size ← emitI64 d.size
  let align ← emitI64 d.align
  let address ← callSupport .objectAlloc [size, align] span
  match d.constructor, signature with
  | some _, some signature =>
    let _ ← emitCall generate signature (some address) args span
  | none, none =>
    if !args.isEmpty then
      internal ("`new " ++ d.name ++ "` does not match the class constructor") span
  | _, _ => internal ("`new " ++ d.name ++ "` does not match the class constructor") span
  return .object (.instanceAt d address)

/-! ## Arrays -/

def arrayField (this : ObjectRef) (member : String) (span : Span) : Gen Value := do
  if member = "length" then
    let array ← requireAddress this span
    return .rvalue (← arrayLength array) .int
  else noMember "Array" member span

/-- The methods of arrays; pushing yields the new length. -/
def arrayCall (generate : Generate) (l : ArrayLayout) (this : ObjectRef) (member : String)
    (args : List Node) (span : Span) : Gen Value := do
  if member = "push" then
    let array ← requireAddress this span
    match args with
    | [] => fail (.missingArgument "Array.push" "item") span
    | item :: _ =>
      let value ← generateOperand generate item l.element
      return .rvalue (← callSupport (.arrayPush l.storage) [array, value] span) .int
  else if member = "pop" then
    let array ← requireAddress this span
    valueOf (← callSupport (.arrayPop l.storage) [array] span) l.element span
  else noMember "Array" member span

/-- `new` of an array, empty or with a length. -/
def arrayNew (generate : Generate) (l : ArrayLayout) (args : List Node) (span : Span) :
    Gen Value := do
  let length ← match args with
    | [] => emitI32 0
    | [n] => generateOperand generate n .int
    | _ => unsupported "new Array with element arguments" l.type.text span
  return .object (.arrayAt l (← callSupport (.arrayWithLength l.storage) [length] span))

/-! ## All objects -/

/-- A member that is not called. -/
def getField (this : ObjectRef) (member : String) (span : Span) : Gen Value :=
  match this.kind with
  | .cls d => classField d this member span
  | .array _ => arrayField this member span
  | .builtin .math => mathField member span

/-- A call of a member. -/
def callMethod (generate : Generate) (this : ObjectRef) (member : String) (args : List Node)
    (signature : Option Signature) (span : Span) : Gen Value :=
  match this.kind with
  | .cls d => classCall generate d this member args signature span
  | .array l => arrayCall generate l this member args span
  | .builtin .math => mathCall generate member args span

/-- An element of an array, as a place; nothing else can be indexed. -/
def indexObject (generate : Generate) (this : ObjectRef) (index : Node) (span : Span) :
    Gen Value := do
  match this.kind with
  | .array l =>
    let array ← requireAddress this span
    let i ← generateOperand generate index .int
    return .assignable ⟨.element array i l, l.element⟩
  | _ => unsupported "[]" this.typeName span

/-- `new` of an object type. -/
def constructObject (generate : Generate) (t : StaticType) (args : List Node)
    (signature : Option Signature) (span : Span) : Gen Value := do
  match t with
  | .object cls _ => classNew generate (← descriptor cls) args signature span
  | .array _ => arrayNew generate (← ofExcept (ArrayLayout.of t span)) args span
  | .builtin b => unsupported "new" b.name span
  | _ => unsupported "new" t.text span

end Gen

end TypedLowering
