import TypedLowering.Proofs.Source.Pool

/-!
The notation of types is unambiguous. What a type is made of shows at the right end of its text: an
array ends in a bracket, a nullable in a word behind a bar, and names have neither. Below the brackets
of an array a nullable shows by its parenthesis. So the text is read from its right end down to the
name, or the primitive type, at the core.

Main statements:

- `StaticType.text_inj`: two types with the same text are equal if their cores are told apart;
- `TypePool.text_unambiguous`: in a pool with proper names no two numbers have the same text.
-/
namespace TypedLowering
set_option autoImplicit false

/-! ## Texts without marks -/

/-- The characters that the notation of types sets around names. -/
def typeMarks : List Char := [' ', '(', ')', '[', ']', '|']

/-- A text without the marks of the notation. -/
def Unmarked (s : String) : Prop := ∀ c ∈ s.toList, c ∉ typeMarks

instance (s : String) : Decidable (Unmarked s) :=
  List.decidableBAll (fun c => c ∉ typeMarks) s.toList

/-- Words of letters, digits, `_` and `$` have no marks. -/
theorem unmarked_of_word {s : String}
    (h : (s.toList.all fun c => c.isAlphanum || c == '_' || c == '$') = true) : Unmarked s := by
  intro c hc hmark
  have hword := List.all_eq_true.mp h c hc
  simp only [typeMarks, List.mem_cons, List.not_mem_nil, or_false] at hmark
  rcases hmark with rfl | rfl | rfl | rfl | rfl | rfl <;> revert hword <;> decide

theorem Unmarked.getLast?_ne {s : String} (h : Unmarked s) {c : Char} (hc : c ∈ typeMarks) :
    s.toList.getLast? ≠ some c :=
  fun hlast => h c (List.mem_of_getLast? hlast) hc

namespace StaticType

/-! ## The text of a tree -/

/-- The type below all arrays and nullables. -/
def core : StaticType → StaticType
  | .array t | .nullable t => t.core
  | t => t

/-- What stands in front of the brackets of an array. -/
def elementText (t : StaticType) : String := if t.isNullable then "(" ++ t.text ++ ")" else t.text

theorem text_array (t : StaticType) : (array t).text = t.elementText ++ "[]" := rfl

theorem text_nullable (t : StaticType) : (nullable t).text = t.text ++ " | undefined" := rfl

/-- A type is its core, or an array, or a nullable. -/
theorem core_cases (t : StaticType) : t.core = t ∨ (∃ e, t = array e) ∨ ∃ e, t = nullable e := by
  cases t with
  | array e => exact .inr (.inl ⟨e, rfl⟩)
  | nullable e => exact .inr (.inr ⟨e, rfl⟩)
  | _ => exact .inl rfl

theorem getLast?_text_array (t : StaticType) : (array t).text.toList.getLast? = some ']' := by
  rw [text_array, String.toList_append, List.getLast?_append]
  rfl

theorem getLast?_text_nullable (t : StaticType) : (nullable t).text.toList.getLast? = some 'd' := by
  rw [text_nullable, String.toList_append, List.getLast?_append]
  rfl

theorem bar_mem_text_nullable (t : StaticType) : '|' ∈ (nullable t).text.toList := by
  rw [text_nullable, String.toList_append]
  exact List.mem_append_right _ (by decide)

theorem text_array_ne_nullable (t u : StaticType) : (array t).text ≠ (nullable u).text := by
  intro h
  have hlast := getLast?_text_array t
  rw [h, getLast?_text_nullable] at hlast
  exact absurd hlast (by decide)

section Unmarked

variable {t u : StaticType}

theorem text_ne_array (ht : Unmarked t.text) (u : StaticType) : t.text ≠ (array u).text := by
  intro h
  have hlast := getLast?_text_array u
  rw [← h] at hlast
  exact ht.getLast?_ne (by decide) hlast

theorem text_ne_nullable (ht : Unmarked t.text) (u : StaticType) : t.text ≠ (nullable u).text := by
  intro h
  have hbar := bar_mem_text_nullable u
  rw [← h] at hbar
  exact ht '|' hbar (by decide)

/-- Only a parenthesis that is put around a text ends it. -/
theorem getLast?_text_ne (ht : Unmarked t.core.text) (hn : t.isNullable = false) :
    t.text.toList.getLast? ≠ some ')' := by
  rcases t.core_cases with hcore | ⟨e, rfl⟩ | ⟨e, rfl⟩
  · rw [hcore] at ht
    exact ht.getLast?_ne (by decide)
  · rw [getLast?_text_array]
    decide
  · cases hn

theorem elementText_ne (ht : t.isNullable = true) (hu : Unmarked u.core.text)
    (hn : u.isNullable = false) : t.elementText ≠ u.elementText := by
  intro h
  rw [elementText, elementText, ht, hn, if_pos rfl, if_neg Bool.false_ne_true] at h
  refine getLast?_text_ne hu hn ?_
  rw [← h, String.toList_append, List.getLast?_append]
  rfl

theorem elementText_inj (ht : Unmarked t.core.text) (hu : Unmarked u.core.text)
    (h : t.elementText = u.elementText) : t.text = u.text := by
  cases hnt : t.isNullable <;> cases hnu : u.isNullable
  · simpa [elementText, hnt, hnu] using h
  · exact absurd h.symm (elementText_ne hnu ht hnt)
  · exact absurd h (elementText_ne hnt hu hnu)
  · simpa [elementText, hnt, hnu] using h

end Unmarked

/-- Types with the same text are equal, if that is so of their cores. -/
theorem text_inj {t u : StaticType} (ht : Unmarked t.core.text) (hu : Unmarked u.core.text)
    (hcore : t.core.text = u.core.text → t.core = u.core) (h : t.text = u.text) : t = u := by
  -- the cores of both stay the same on the way down
  induction t generalizing u with
  | array t ih =>
    rcases u.core_cases with hu' | ⟨e, rfl⟩ | ⟨e, rfl⟩
    · rw [hu'] at hu
      exact absurd h.symm (text_ne_array hu t)
    · have helement : t.elementText = e.elementText := (String.append_left_inj "[]").mp h
      have hte : t = e := ih ht hu hcore (elementText_inj ht hu helement)
      rw [hte]
    · exact absurd h (text_array_ne_nullable t e)
  | nullable t ih =>
    rcases u.core_cases with hu' | ⟨e, rfl⟩ | ⟨e, rfl⟩
    · rw [hu'] at hu
      exact absurd h.symm (text_ne_nullable hu t)
    · exact absurd h.symm (text_array_ne_nullable e t)
    · have hte : t = e := ih ht hu hcore ((String.append_left_inj " | undefined").mp h)
      rw [hte]
  | _ =>
    rcases u.core_cases with hu' | ⟨e, rfl⟩ | ⟨e, rfl⟩
    · rw [hu'] at hcore
      exact hcore h
    · exact absurd h (text_ne_array ht e)
    · exact absurd h (text_ne_nullable ht e)

end StaticType

namespace TypePool

variable {p : TypePool} {id : TypeId}

/-! ## The text of a number -/

namespace Sound

theorem isNullable_tree_iff (h : p.Sound) :
    (p.tree id).isNullable = true ↔ ∃ inner, p.shape? id = some (.nullable inner) := by
  refine ⟨isNullable_tree, fun ⟨inner, hs⟩ => ?_⟩
  rw [h.tree_eq hs]
  rfl

/-- The text of a number is that of the type that it stands for. -/
theorem text_eq (h : p.Sound) (hid : id < p.size) : p.text id = (p.tree id).text := by
  induction id using Nat.strongRecOn with
  | ind id ih =>
    obtain ⟨shape, hs⟩ := lt_size_iff.mp hid
    have hparts := h.parts hs
    rw [h.tree_eq hs, text, hs]
    cases shape with
    | array inner =>
      have hlt : inner < id := hparts inner (List.mem_singleton_self inner)
      have hinner := ih inner hlt (Nat.lt_trans hlt hid)
      simp only [if_pos hlt, hinner, TypeShape.layered, StaticType.text]
      split
      · next innermost hi =>
        rw [if_pos (h.isNullable_tree_iff.mpr ⟨innermost, hi⟩), String.append_assoc,
          String.append_assoc, String.append_assoc]
        rfl
      · next hi =>
        rw [if_neg fun hn => ?_]
        obtain ⟨innermost, hinner⟩ := isNullable_tree hn
        exact hi innermost hinner
    | nullable inner =>
      have hlt : inner < id := hparts inner (List.mem_singleton_self inner)
      simp only [if_pos hlt, ih inner hlt (Nat.lt_trans hlt hid), TypeShape.layered, StaticType.text]
    | _ => rfl

/-- The core of a type has a number of its own. -/
theorem exists_core (h : p.Sound) (hid : id < p.size) :
    ∃ i shape, p.shape? i = some shape ∧ shape.parts = [] ∧ p.tree i = (p.tree id).core := by
  induction id using Nat.strongRecOn with
  | ind id ih =>
    obtain ⟨shape, hs⟩ := lt_size_iff.mp hid
    have hparts := h.parts hs
    have htree := h.tree_eq hs
    cases shape with
    | array inner | nullable inner =>
      have hlt : inner < id := hparts inner (List.mem_singleton_self inner)
      rw [htree]
      exact ih inner hlt (Nat.lt_trans hlt hid)
    | _ => exact ⟨id, _, hs, rfl, by rw [htree]; rfl⟩

end Sound

end TypePool

/-! ## Layers without parts -/

namespace TypeShape

/-- The name of a class or a type parameter. -/
def name? : TypeShape → Option String
  | .object _ name | .param name => some name
  | _ => none

/-- The layers without parts or names of their own. -/
def fixedShapes : List TypeShape := [.int, .number, .boolean, .void, .builtin .math]

/-- The text of a layer without parts. -/
def leafText (shape : TypeShape) : String := (shape.layered fun _ => .void).text

/-- The texts that are no names. -/
def takenNames : List String := ["int", "number", "boolean", "void", "Math"]

theorem unmarked_fixed : ∀ shape ∈ fixedShapes, Unmarked shape.leafText := by decide

theorem taken_fixed : ∀ shape ∈ fixedShapes, shape.leafText ∈ takenNames := by decide

theorem fixed_inj : ∀ shape ∈ fixedShapes, ∀ shape' ∈ fixedShapes,
    shape.leafText = shape'.leafText → shape = shape' := by decide

theorem text_of_leaf {shape : TypeShape} (hparts : shape.parts = []) (tree : TypeId → StaticType) :
    (shape.layered tree).text = shape.leafText := by
  have hsame : shape.layered tree = shape.layered fun _ => .void := by
    refine layered_congr fun part hpart => ?_
    rw [hparts] at hpart
    cases hpart
  rw [leafText, hsame]

/-- A layer without parts is fixed or shows its name. -/
theorem leaf_cases {shape : TypeShape} (hparts : shape.parts = []) :
    shape ∈ fixedShapes ∨ shape.name? = some shape.leafText := by
  cases shape with
  | array | nullable => cases hparts
  | object | param => exact .inr rfl
  | builtin which => cases which; exact .inl (by decide)
  | _ => exact .inl (by decide)

end TypeShape

namespace TypePool

variable {p : TypePool} {i j : TypeId} {shape shape' : TypeShape} {name : String}

/-! ## Pools with proper names -/

/-- A name without marks that is not the text of a primitive type or a built-in object. -/
structure IsProperName (name : String) : Prop where
  unmarked : Unmarked name
  free : name ∉ TypeShape.takenNames

/-- The classes and type parameters of a pool have proper names, and no class has the name of a type
parameter or of another class. -/
structure WellNamed (p : TypePool) : Prop where
  proper : ∀ {id shape name}, p.shape? id = some shape → shape.name? = some name → IsProperName name
  apart : ∀ {i j cls name}, p.shape? i = some (.object cls name) → p.shape? j ≠ some (.param name)
  unique : ∀ {i j cls cls' name}, p.shape? i = some (.object cls name) →
    p.shape? j = some (.object cls' name) → i = j

namespace WellNamed

theorem unmarked (h : p.WellNamed) (hs : p.shape? i = some shape) (hparts : shape.parts = []) :
    Unmarked shape.leafText := by
  rcases TypeShape.leaf_cases hparts with hfixed | hname
  · exact TypeShape.unmarked_fixed shape hfixed
  · exact (h.proper hs hname).unmarked

/-- What has a name is told from what is fixed. -/
theorem ne_fixed (h : p.WellNamed) (hs : p.shape? i = some shape) (hname : shape.name? = some name)
    (hfixed : shape' ∈ TypeShape.fixedShapes) : name ≠ shape'.leafText := by
  rintro rfl
  exact (h.proper hs hname).free (TypeShape.taken_fixed shape' hfixed)

/-- A name belongs to one number. -/
theorem name_inj (h : p.WellNamed) (hp : p.Sound) (hs : p.shape? i = some shape)
    (hs' : p.shape? j = some shape') (hname : shape.name? = some name)
    (hname' : shape'.name? = some name) : i = j := by
  cases shape with
  | object cls =>
    cases hname
    cases shape' with
    | object cls' => cases hname'; exact h.unique hs hs'
    | param => cases hname'; exact absurd hs' (h.apart hs)
    | _ => cases hname'
  | param =>
    cases hname
    cases shape' with
    | object cls' => cases hname'; exact absurd hs (h.apart hs')
    | param => cases hname'; exact hp.shape_inj hs hs'
    | _ => cases hname'
  | _ => cases hname

/-- Types without parts are told apart by their texts. -/
theorem leaf_inj (h : p.WellNamed) (hp : p.Sound) (hs : p.shape? i = some shape)
    (hs' : p.shape? j = some shape') (hparts : shape.parts = []) (hparts' : shape'.parts = [])
    (htext : shape.leafText = shape'.leafText) : i = j := by
  rcases TypeShape.leaf_cases hparts with hfixed | hname
  · rcases TypeShape.leaf_cases hparts' with hfixed' | hname'
    · obtain rfl := TypeShape.fixed_inj shape hfixed shape' hfixed' htext
      exact hp.shape_inj hs hs'
    · exact absurd htext.symm (h.ne_fixed hs' hname' hfixed)
  · rcases TypeShape.leaf_cases hparts' with hfixed' | hname'
    · exact absurd htext (h.ne_fixed hs hname hfixed')
    · rw [← htext] at hname'
      exact h.name_inj hp hs hs' hname hname'

end WellNamed

/-- **Texts are unambiguous.** After any operations on known numbers, in a pool whose classes and type
parameters have proper names of their own, two numbers of types with the same text are the same. -/
theorem text_unambiguous {h : History} (hrun : History.initial.Leads h) (hnames : h.pool.WellNamed)
    (hi : i < h.pool.size) (hj : j < h.pool.size) (htext : h.pool.text i = h.pool.text j) : i = j := by
  have hp : h.pool.Sound := (History.sound_initial.leads hrun).1.pool
  obtain ⟨a, shape, hs, hparts, htree⟩ := hp.exists_core hi
  obtain ⟨b, shape', hs', hparts', htree'⟩ := hp.exists_core hj
  have hleaf : (h.pool.tree i).core.text = shape.leafText := by
    rw [← htree, hp.tree_eq hs, TypeShape.text_of_leaf hparts]
  have hleaf' : (h.pool.tree j).core.text = shape'.leafText := by
    rw [← htree', hp.tree_eq hs', TypeShape.text_of_leaf hparts']
  refine hp.tree_inj hi hj (StaticType.text_inj ?_ ?_ (fun hcore => ?_) ?_)
  · rw [hleaf]
    exact hnames.unmarked hs hparts
  · rw [hleaf']
    exact hnames.unmarked hs' hparts'
  · rw [hleaf, hleaf'] at hcore
    rw [← htree, ← htree', hnames.leaf_inj hp hs hs' hparts hparts' hcore]
  · rw [← hp.text_eq hi, ← hp.text_eq hj, htext]

/-- A type parameter and a class, with arrays and nullables on top of the parameter in both orders. -/
def nestedTypes : History :=
  [Operation.intern (.param "T"), .intern (.object ⟨0⟩ "Box_1"), .intern (.nullable 4),
    .intern (.array 6), .intern (.array 4), .intern (.nullable 8)].foldl .after .initial

theorem text_unambiguous_nested :
    History.initial.Leads nestedTypes ∧ nestedTypes.pool.WellNamed ∧
    nestedTypes.pool.text 7 = "(T | undefined)[]" ∧ nestedTypes.pool.text 9 = "T[] | undefined" ∧
    ∀ i < 10, ∀ j < 10, nestedTypes.pool.text i = nestedTypes.pool.text j → i = j := by
  have after (h : History) (op : Operation) (hop : ∀ id ∈ op.arguments, h.Known id) :
      h.Step (h.after op) := ⟨op, hop, rfl⟩
  have hrun : History.initial.Leads nestedTypes := by
    refine .tail (.tail (.tail (.tail (.tail (.tail .refl (after _ _ ?_)) (after _ _ ?_)) (after _ _ ?_))
      (after _ _ ?_)) (after _ _ ?_)) (after _ _ ?_) <;>
      simp only [History.Known] <;> decide +kernel
  have hsize : nestedTypes.pool.size = 10 := by decide +kernel
  have hshapes : ∀ id < 10, ∀ shape ∈ nestedTypes.pool.shape? id,
      id = 4 ∧ shape = .param "T" ∨ id = 5 ∧ shape = .object ⟨0⟩ "Box_1" ∨ shape.name? = none := by
    decide +kernel
  have hcases {id : TypeId} {shape : TypeShape} (hs : nestedTypes.pool.shape? id = some shape) :
      id = 4 ∧ shape = .param "T" ∨ id = 5 ∧ shape = .object ⟨0⟩ "Box_1" ∨ shape.name? = none :=
    hshapes id (hsize ▸ lt_size hs) shape hs
  have hnames : nestedTypes.pool.WellNamed := by
    refine ⟨fun hs hname => ?_, fun hs hs' => ?_, fun hs hs' => ?_⟩
    · rcases hcases hs with ⟨-, rfl⟩ | ⟨-, rfl⟩ | hnone
      · cases hname
        exact ⟨unmarked_of_word (by decide), by decide⟩
      · cases hname
        exact ⟨unmarked_of_word (by decide), by decide⟩
      · cases hnone.symm.trans hname
    · have hobject := (hcases hs).resolve_left (by simp) |>.resolve_right (by simp [TypeShape.name?])
      have hparam := (hcases hs').resolve_right (by simp [TypeShape.name?])
      cases hobject.2
      exact absurd hparam.2 (by decide)
    · have hfirst := (hcases hs).resolve_left (by simp) |>.resolve_right (by simp [TypeShape.name?])
      have hsecond := (hcases hs').resolve_left (by simp) |>.resolve_right (by simp [TypeShape.name?])
      rw [hfirst.1, hsecond.1]
  refine ⟨hrun, hnames, by decide +kernel, by decide +kernel, fun i hi j hj htext => ?_⟩
  exact text_unambiguous hrun hnames (by rwa [hsize]) (by rwa [hsize]) htext

end TypePool

end TypedLowering
