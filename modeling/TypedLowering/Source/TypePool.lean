import TypedLowering.Source.StaticType

/-!
A store in which each static type is kept once and known by a number, so that two types are equal
exactly when their numbers are. The four primitive types have the numbers 0 to 3. Array and
nullable types refer to their parts by number, always a smaller one; the recursions below descend
along it. `TypePool.tree` gives the type that a number stands for.
-/
namespace TypedLowering
set_option autoImplicit false

/-- The number of a type in a pool. -/
abbrev TypeId := Nat

/-- One layer of a type, with numbers for the parts. -/
inductive TypeShape where
  | int
  | number
  | boolean
  | void
  | array (element : TypeId)
  | nullable (inner : TypeId)
  | object (cls : ClassId) (name : String)
  | builtin (which : BuiltinObject)
  | param (name : String)
  deriving DecidableEq, Repr

/-- The types kept, by number, and the number of each. -/
structure TypePool where
  shapes : Array TypeShape
  ids : Dict TypeShape TypeId

namespace TypePool

/-- The primitive types, in the order of their numbers. -/
def primitives : List TypeShape := [.int, .number, .boolean, .void]

/-- The pool that holds the primitive types alone. -/
def initial : TypePool :=
  { shapes := primitives.toArray, ids := .ofList (primitives.zipIdx) }

def primitiveCount : Nat := primitives.length

def size (p : TypePool) : Nat := p.shapes.size

def shape? (p : TypePool) (id : TypeId) : Option TypeShape := p.shapes[id]?

/-- The number of a layer, which is added if it is new. A nullable of a nullable is the latter. -/
def intern (p : TypePool) (s : TypeShape) : TypeId × TypePool :=
  match s with
  | .nullable inner =>
    match p.shape? inner with
    | some (.nullable _) => (inner, p)
    | _ => add p s
  | _ => add p s
where
  add (p : TypePool) (s : TypeShape) : TypeId × TypePool :=
    match p.ids.get? s with
    | some id => (id, p)
    | none => (p.size, { shapes := p.shapes.push s, ids := p.ids.insert s p.size })

/-- Whether a type parameter occurs in the type. -/
def isGeneric (p : TypePool) (id : TypeId) : Bool :=
  match p.shape? id with
  | some (.param _) => true
  | some (.array inner) => if inner < id then p.isGeneric inner else false
  | some (.nullable inner) => if inner < id then p.isGeneric inner else false
  | _ => false
termination_by id

/-- Replaces the bound type parameters. What is primitive stays, as does all under the empty
substitution. -/
def substitute (p : TypePool) (s : Dict String TypeId) (id : TypeId) : TypeId × TypePool :=
  if s.size = 0 ∨ id < primitiveCount then (id, p)
  else
    match p.shape? id with
    | some (.param name) => ((s.get? name).getD id, p)
    | some (.array inner) =>
      if inner < id then
        let r := p.substitute s inner
        r.2.intern (.array r.1)
      else (id, p)
    | some (.nullable inner) =>
      if inner < id then
        let r := p.substitute s inner
        r.2.intern (.nullable r.1)
      else (id, p)
    | _ => (id, p)
termination_by id

/-- The type that a number stands for; what is no number of the pool stands for `void`. -/
def tree (p : TypePool) (id : TypeId) : StaticType :=
  match p.shape? id with
  | some .int => .int
  | some .number => .number
  | some .boolean => .boolean
  | some .void | none => .void
  | some (.array inner) => .array (if inner < id then p.tree inner else .void)
  | some (.nullable inner) => .nullable (if inner < id then p.tree inner else .void)
  | some (.object cls name) => .object cls name
  | some (.builtin b) => .builtin b
  | some (.param name) => .param name
termination_by id

/-- The type in source notation. -/
def text (p : TypePool) (id : TypeId) : String :=
  match p.shape? id with
  | some .int => "int"
  | some .number => "number"
  | some .boolean => "boolean"
  | some .void => "void"
  | some (.array inner) =>
    let body := if inner < id then p.text inner else ""
    match p.shape? inner with
    | some (.nullable _) => "(" ++ body ++ ")[]"
    | _ => body ++ "[]"
  | some (.nullable inner) => (if inner < id then p.text inner else "") ++ " | undefined"
  | some (.object _ name) => name
  | some (.builtin b) => b.name
  | some (.param name) => name
  | none => ""
termination_by id

/-- How the number itself is written: primitive types are named. -/
def idText (id : TypeId) : String :=
  "TypeId(" ++ (match id with
    | 0 => "int"
    | 1 => "number"
    | 2 => "boolean"
    | 3 => "void"
    | n => toString n) ++ ")"

end TypePool

end TypedLowering
