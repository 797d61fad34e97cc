import TypedLowering.Data.Dict

/-!
A store in which each string is kept once and known by a number. The empty string has number 0.
-/
namespace TypedLowering
set_option autoImplicit false

/-- The strings kept, by number, and the number of each. -/
structure Interner where
  strings : Array String
  ids : Dict String Nat

namespace Interner

/-- The store that holds the empty string alone. -/
def initial : Interner := { strings := #[""], ids := Dict.empty.insert "" 0 }

def size (i : Interner) : Nat := i.strings.size

/-- The number of a string, which is added if it is new. -/
def intern (i : Interner) (s : String) : Nat × Interner :=
  match i.ids.get? s with
  | some id => (id, i)
  | none => (i.size, { strings := i.strings.push s, ids := i.ids.insert s i.size })

/-- The string with a number; a number that was never given out stands for the empty string. -/
def lookup (i : Interner) (id : Nat) : String := (i.strings[id]?).getD ""

/-- How the number itself is written. -/
def idText (id : Nat) : String := "Name(" ++ toString id ++ ")"

end Interner

end TypedLowering
