/-!
Finite maps as association lists. A key is bound at most once: binding it again replaces the old
value. The main statements are the two look-up laws `get?_insert_self` and `get?_insert_of_ne`.
-/
namespace TypedLowering
set_option autoImplicit false

/-- A finite map from `κ` to `α`, as the list of its bindings, the latest first. -/
structure Dict (κ α : Type) where
  bindings : List (κ × α) := []

namespace Dict

variable {κ α : Type} [DecidableEq κ]

/-- The map without bindings. -/
def empty : Dict κ α := ⟨[]⟩

instance : Inhabited (Dict κ α) := ⟨empty⟩

/-- The value bound to a key. -/
def get? (d : Dict κ α) (key : κ) : Option α :=
  (d.bindings.find? fun b => b.1 = key).map (·.2)

/-- Binds a key, replacing what it was bound to. -/
def insert (d : Dict κ α) (key : κ) (value : α) : Dict κ α :=
  ⟨(key, value) :: d.bindings.filter fun b => b.1 ≠ key⟩

/-- The number of bound keys. -/
def size (d : Dict κ α) : Nat := d.bindings.length

def contains (d : Dict κ α) (key : κ) : Bool := (d.get? key).isSome

/-- Binds each pair in turn, so the last pair with a given key wins. -/
def ofList (pairs : List (κ × α)) : Dict κ α :=
  pairs.foldl (fun d b => d.insert b.1 b.2) empty

@[simp] theorem get?_empty (key : κ) : (empty : Dict κ α).get? key = none := rfl

@[simp] theorem get?_insert_self (d : Dict κ α) (key : κ) (value : α) :
    (d.insert key value).get? key = some value := by
  simp [get?, insert]

theorem get?_insert_of_ne (d : Dict κ α) {key other : κ} (value : α) (h : key ≠ other) :
    (d.insert key value).get? other = d.get? other := by
  have hp : (fun b : κ × α => !decide (b.1 = key) && decide (b.1 = other))
      = fun b => decide (b.1 = other) := by
    funext b
    by_cases hb : b.1 = other
    · simp [hb, Ne.symm h]
    · simp [hb]
  simp [get?, insert, h, List.find?_filter, hp]

/-- What is bound in a map that is made of a list is in the list. -/
theorem mem_of_get?_ofList {pairs : List (κ × α)} {key : κ} {a : α}
    (h : (ofList pairs).get? key = some a) : (key, a) ∈ pairs := by
  have bound {pairs : List (κ × α)} {d : Dict κ α}
      (hd : (pairs.foldl (fun d b => d.insert b.1 b.2) d).get? key = some a) :
      (key, a) ∈ pairs ∨ d.get? key = some a := by
    induction pairs generalizing d with
    | nil => exact .inr hd
    | cons b pairs ih =>
      rcases ih hd with hmem | hget
      · exact .inl (List.mem_cons_of_mem _ hmem)
      · dsimp only at hget
        by_cases hb : b.1 = key
        · rw [hb, get?_insert_self] at hget
          cases hget
          exact .inl (by rw [← hb]; exact List.mem_cons_self)
        · rw [get?_insert_of_ne _ _ hb] at hget
          exact .inr hget
  rcases bound h with hmem | hnone
  · exact hmem
  · cases hnone

end Dict

end TypedLowering
