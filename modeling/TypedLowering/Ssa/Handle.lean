/-!
Handles: numbers of the entities of a low-level module, one type per sort of entity so that they
cannot be mixed up. The number 2³² − 1 is reserved and stands for an absent entity.
-/
namespace TypedLowering.Ssa
set_option autoImplicit false

/-- The sorts of entities that are referred to by number. -/
inductive EntitySort where
  | value
  | block
  | function
  | global
  | struct
  deriving DecidableEq, Repr

/-- What is written in front of the number of an entity. -/
def EntitySort.mark : EntitySort → String
  | .value => "%v"
  | .block => "bb"
  | .function => "fn"
  | .global => "@g"
  | .struct => "%s"

/-- The number of an entity in the order of creation. -/
structure Handle (sort : EntitySort) where
  index : Nat
  deriving DecidableEq, Repr

/-- An instruction or parameter of one function. -/
abbrev ValueId := Handle .value
/-- A basic block of one function. -/
abbrev BlockId := Handle .block
/-- A function of the module. -/
abbrev FunctionId := Handle .function
/-- A constant array of the module. -/
abbrev GlobalId := Handle .global
/-- A struct layout of the module. -/
abbrev StructId := Handle .struct

namespace Handle

variable {sort : EntitySort}

/-- The handle that refers to nothing. -/
def absent : Handle sort := ⟨0xFFFFFFFF⟩

def isAbsent (h : Handle sort) : Bool := h.index == 0xFFFFFFFF

/-- The written form, such as `%v3` or `bb<none>`. -/
def text (h : Handle sort) : String :=
  sort.mark ++ if h.isAbsent then "<none>" else toString h.index

@[simp] theorem isAbsent_absent : (absent : Handle sort).isAbsent = true := by
  simp [isAbsent, absent]

end Handle

end TypedLowering.Ssa
