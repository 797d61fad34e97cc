import Mathlib.Data.List.Nodup
import Mathlib.Logic.Relation
import TypedLowering.Source.TypePool

/-!
What a pool stands for. The table of layers and the table of numbers are inverse to each other, and
the parts of a layer have smaller numbers than the layer. So a number stands for one type for good,
and no type has two numbers.

Main statements:

- `TypePool.Sound.intern`, `TypePool.Sound.substitute`: an operation keeps the pool sound, changes
  nothing that was there and answers with the number of the type that is asked for;
- `TypePool.numbers_represent_types`: what holds after every sequence of operations.
-/
namespace TypedLowering
set_option autoImplicit false

/-! ## Types -/

namespace StaticType

theorem orUndefined_of_isNullable {t : StaticType} (h : t.isNullable = true) : t.orUndefined = t := by
  rw [orUndefined, if_pos h]

theorem orUndefined_of_not_isNullable {t : StaticType} (h : t.isNullable = false) :
    t.orUndefined = .nullable t := by
  rw [orUndefined, h, if_neg Bool.false_ne_true]

/-- Where nothing is bound, nothing changes but nullables of nullables. -/
theorem substitute_of_unbound {s : Substitution} {t : StaticType} (ht : t.IsCollapsed)
    (hs : ∀ name, s.get? name = none) : t.substitute s = t := by
  induction t with
  | array t ih => rw [substitute, ih ht]
  | nullable t ih => rw [substitute, ih ht.2, orUndefined_of_not_isNullable ht.1]
  | param name => rw [substitute, hs]; rfl
  | _ => rfl

end StaticType

/-! ## Layers -/

namespace TypeShape

/-- The numbers that a layer refers to. -/
def parts : TypeShape → List TypeId
  | .array t | .nullable t => [t]
  | _ => []

/-- The type with a layer at its top, where numbers stand for given types. -/
def layered (tree : TypeId → StaticType) : TypeShape → StaticType
  | .int => .int
  | .number => .number
  | .boolean => .boolean
  | .void => .void
  | .array t => .array (tree t)
  | .nullable t => .nullable (tree t)
  | .object cls name => .object cls name
  | .builtin b => .builtin b
  | .param name => .param name

/-- The type that is asked for with a layer: a nullable of a nullable is the latter. -/
def requested (tree : TypeId → StaticType) (shape : TypeShape) : StaticType :=
  match shape with
  | .nullable t => (tree t).orUndefined
  | _ => shape.layered tree

variable {tree tree' : TypeId → StaticType} {shape shape' : TypeShape}

theorem layered_congr (h : ∀ part ∈ shape.parts, tree part = tree' part) :
    shape.layered tree = shape.layered tree' := by
  cases shape <;> simp_all [layered, parts]

/-- Where no two parts stand for the same type, a type has one layer at its top. -/
theorem layered_inj (h : ∀ a ∈ shape.parts, ∀ b ∈ shape'.parts, tree a = tree b → a = b)
    (heq : shape.layered tree = shape'.layered tree) : shape = shape' := by
  cases shape <;> cases shape' <;> simp_all [layered, parts]

theorem requested_of_plain (h : ∀ t, shape = .nullable t → (tree t).isNullable = false) :
    shape.requested tree = shape.layered tree := by
  cases shape with
  | nullable t => exact StaticType.orUndefined_of_not_isNullable (h t rfl)
  | _ => rfl

end TypeShape

namespace Dict

variable {κ α β : Type} [DecidableEq κ]

/-- The map with its values replaced. -/
def mapValues (g : α → β) (d : Dict κ α) : Dict κ β := ⟨d.bindings.map fun b => (b.1, g b.2)⟩

theorem get?_mapValues (g : α → β) (d : Dict κ α) (key : κ) :
    (d.mapValues g).get? key = (d.get? key).map g := by
  simp [get?, mapValues, List.find?_map, Function.comp_def]

/-- The values of a map. -/
def values (d : Dict κ α) : List α := d.bindings.map (·.2)

theorem mem_values {d : Dict κ α} {key : κ} {value : α} (h : d.get? key = some value) :
    value ∈ d.values := by
  obtain ⟨b, hb, rfl⟩ := Option.map_eq_some_iff.mp h
  exact List.mem_map_of_mem (List.mem_of_find?_eq_some hb)

end Dict

namespace TypePool

variable {p p' p'' : TypePool}

/-! ## Sound pools -/

/-- A pool in which each layer is kept once, over layers that were there before, and no nullable is
the part of a nullable. -/
structure Sound (p : TypePool) : Prop where
  ids : ∀ {shape id}, p.ids.get? shape = some id ↔ p.shape? id = some shape
  parts : ∀ {id shape}, p.shape? id = some shape → ∀ part ∈ shape.parts, part < id
  collapsed : ∀ {id inner}, p.shape? id = some (.nullable inner) →
    ∀ innermost, p.shape? inner ≠ some (.nullable innermost)
  primitives : ∀ id < primitiveCount, p.shape? id = primitives[id]?

/-- A pool that has all that another one has, under the same numbers. -/
structure Extends (p p' : TypePool) : Prop where
  shape? : ∀ {id shape}, p.shape? id = some shape → p'.shape? id = some shape

theorem Extends.refl (p : TypePool) : p.Extends p := ⟨id⟩

theorem Extends.trans (h : p.Extends p') (h' : p'.Extends p'') : p.Extends p'' :=
  ⟨fun hs => h'.shape? (h.shape? hs)⟩

theorem lt_size_iff {id : TypeId} : id < p.size ↔ ∃ shape, p.shape? id = some shape := by
  unfold shape? size
  rw [← Option.isSome_iff_exists]
  simp

theorem lt_size {id : TypeId} {shape : TypeShape} (h : p.shape? id = some shape) : id < p.size :=
  lt_size_iff.mpr ⟨shape, h⟩

theorem Extends.lt_size (h : p.Extends p') {id : TypeId} (hid : id < p.size) : id < p'.size := by
  obtain ⟨shape, hs⟩ := lt_size_iff.mp hid
  exact TypePool.lt_size (h.shape? hs)

theorem isNullable_tree {id : TypeId} (h : (p.tree id).isNullable = true) :
    ∃ inner, p.shape? id = some (.nullable inner) := by
  rw [tree] at h
  cases hs : p.shape? id with
  | none =>
    rw [hs] at h
    cases h
  | some shape =>
    rw [hs] at h
    cases shape with
    | nullable inner => exact ⟨inner, rfl⟩
    | _ => cases h

namespace Sound

variable (h : p.Sound)
include h

theorem initial_le : primitiveCount ≤ p.size := by
  have h3 := h.primitives 3 (by decide)
  exact lt_size h3

/-- The number of a layer is unique. -/
theorem shape_inj {i j : TypeId} {shape : TypeShape} (hi : p.shape? i = some shape)
    (hj : p.shape? j = some shape) : i = j :=
  Option.some.inj ((h.ids.mpr hi).symm.trans (h.ids.mpr hj))

/-- The type that a number stands for has its layer at the top. -/
theorem tree_eq {id : TypeId} {shape : TypeShape} (hs : p.shape? id = some shape) :
    p.tree id = shape.layered p.tree := by
  have hparts := h.parts hs
  rw [tree, hs]
  cases shape with
  | array inner | nullable inner =>
    have hlt : inner < id := hparts inner (List.mem_singleton_self inner)
    simp only [if_pos hlt, TypeShape.layered]
  | _ => rfl

/-- No nullable is under a nullable. -/
theorem isNullable_inner {id inner : TypeId} (hs : p.shape? id = some (.nullable inner)) :
    (p.tree inner).isNullable = false := by
  rw [Bool.eq_false_iff]
  intro hn
  obtain ⟨innermost, hi⟩ := isNullable_tree hn
  exact h.collapsed hs innermost hi

theorem isCollapsed_tree (id : TypeId) : (p.tree id).IsCollapsed := by
  induction id using Nat.strongRecOn with
  | ind id ih =>
    by_cases hid : id < p.size
    · obtain ⟨shape, hs⟩ := lt_size_iff.mp hid
      have hparts := h.parts hs
      rw [h.tree_eq hs]
      cases shape with
      | array inner => exact ih inner (hparts inner (List.mem_singleton_self inner))
      | nullable inner =>
        exact ⟨h.isNullable_inner hs, ih inner (hparts inner (List.mem_singleton_self inner))⟩
      | _ => trivial
    · have hnone : p.shape? id = none := by
        rw [Option.eq_none_iff_forall_not_mem]
        exact fun shape hs => hid (lt_size hs)
      rw [tree, hnone]
      trivial

/-- A number goes on standing for the same type. -/
theorem tree_of_extends (h' : p'.Sound) (he : p.Extends p') {id : TypeId} (hid : id < p.size) :
    p'.tree id = p.tree id := by
  induction id using Nat.strongRecOn with
  | ind id ih =>
    obtain ⟨shape, hs⟩ := lt_size_iff.mp hid
    rw [h.tree_eq hs, h'.tree_eq (he.shape? hs)]
    refine TypeShape.layered_congr fun part hpart => ?_
    have hlt := h.parts hs part hpart
    exact ih part hlt (Nat.lt_trans hlt hid)

/-- No type has two numbers. -/
theorem tree_inj {i j : TypeId} (hi : i < p.size) (hj : j < p.size) (heq : p.tree i = p.tree j) :
    i = j := by
  induction i using Nat.strongRecOn generalizing j with
  | ind i ih =>
    obtain ⟨shape, hs⟩ := lt_size_iff.mp hi
    obtain ⟨shape', hs'⟩ := lt_size_iff.mp hj
    have hshape : shape = shape' := by
      rw [h.tree_eq hs, h.tree_eq hs'] at heq
      refine TypeShape.layered_inj (fun a ha b hb hab => ?_) heq
      have hlt := h.parts hs a ha
      exact ih a hlt (Nat.lt_trans hlt hi) (Nat.lt_trans (h.parts hs' b hb) hj) hab
    subst hshape
    exact h.shape_inj hs hs'

end Sound

/-! ## Operations -/

/-- An answer of an operation: the number of a type, in a sound pool that has all that was there. -/
structure Answers (p : TypePool) (t : StaticType) (r : TypeId × TypePool) : Prop where
  sound : r.2.Sound
  keeps : p.Extends r.2
  given : r.1 < r.2.size
  tree : r.2.tree r.1 = t

theorem Answers.trans {t u : StaticType} {r r' : TypeId × TypePool} (h : p.Answers t r)
    (h' : r.2.Answers u r') : p.Answers u r' :=
  ⟨h'.sound, h.keeps.trans h'.keeps, h'.given, h'.tree⟩

theorem shape?_push {ids : Dict TypeShape TypeId} {shape : TypeShape} (id : TypeId) :
    shape? { shapes := p.shapes.push shape, ids } id = if id = p.size then some shape else p.shape? id :=
  Array.getElem?_push

namespace Sound

variable {shape : TypeShape}

theorem add (h : p.Sound) (hparts : ∀ part ∈ shape.parts, part < p.size)
    (hcollapsed : ∀ inner, shape = .nullable inner → ∀ i, p.shape? inner ≠ some (.nullable i)) :
    p.Answers (shape.layered p.tree) (intern.add p shape) := by
  unfold intern.add
  cases hid : p.ids.get? shape with
  | some id =>
    have hs := h.ids.mp hid
    exact ⟨h, .refl p, lt_size hs, h.tree_eq hs⟩
  | none =>
    let p' : TypePool := { shapes := p.shapes.push shape, ids := p.ids.insert shape p.size }
    have hnew : p'.shape? p.size = some shape := by rw [shape?_push, if_pos rfl]
    have hkeeps : p.Extends p' := by
      refine ⟨fun {id s} hs => ?_⟩
      rw [shape?_push, if_neg (Nat.ne_of_lt (lt_size hs)), hs]
    -- what is in the new pool is the new layer or was there before
    have hcases {id : TypeId} {s : TypeShape} (hs : p'.shape? id = some s) :
        id = p.size ∧ s = shape ∨ p.shape? id = some s := by
      rw [shape?_push] at hs
      split at hs
      · next hid => exact .inl ⟨hid, (Option.some.inj hs).symm⟩
      · exact .inr hs
    have hsound : p'.Sound := by
      refine ⟨fun {s id} => ?_, fun {id s} hs part hpart => ?_, fun {id inner} hs i hi => ?_,
        fun id hlt => ?_⟩
      · by_cases heq : shape = s
        · subst heq
          show (p.ids.insert shape p.size).get? shape = some id ↔ _
          rw [Dict.get?_insert_self]
          constructor
          · intro hsize
            rwa [← Option.some.inj hsize]
          · intro hs
            rcases hcases hs with ⟨rfl, -⟩ | hold
            · rfl
            · cases hid.symm.trans (h.ids.mpr hold)
        · show (p.ids.insert shape p.size).get? s = some id ↔ _
          rw [Dict.get?_insert_of_ne _ _ heq, h.ids]
          refine ⟨hkeeps.shape?, fun hs => ?_⟩
          rcases hcases hs with ⟨-, rfl⟩ | hold
          · exact (heq rfl).elim
          · exact hold
      · rcases hcases hs with ⟨rfl, rfl⟩ | hold
        · exact hparts part hpart
        · exact h.parts hold part hpart
      · rcases hcases hs with ⟨rfl, rfl⟩ | hold
        · rcases hcases hi with ⟨rfl, -⟩ | hi
          · exact Nat.lt_irrefl _ (hparts p.size (List.mem_singleton_self _))
          · exact hcollapsed inner rfl i hi
        · have hlt := h.parts hold inner (List.mem_singleton_self inner)
          rcases hcases hi with ⟨rfl, -⟩ | hi
          · exact Nat.lt_irrefl _ (Nat.lt_trans hlt (lt_size hold))
          · exact h.collapsed hold i hi
      · have hsize : id < p.size := Nat.lt_of_lt_of_le hlt h.initial_le
        rw [shape?_push, if_neg (Nat.ne_of_lt hsize)]
        exact h.primitives id hlt
    refine ⟨hsound, hkeeps, lt_size hnew, (hsound.tree_eq hnew).trans ?_⟩
    exact TypeShape.layered_congr fun part hpart => h.tree_of_extends hsound hkeeps (hparts part hpart)

/-- A layer over types of the pool is entered, or is there already. -/
theorem intern (h : p.Sound) (hparts : ∀ part ∈ shape.parts, part < p.size) :
    p.Answers (shape.requested p.tree) (p.intern shape) := by
  unfold TypePool.intern
  split
  · next inner =>
    split
    · next innermost hi =>
      have hn : (p.tree inner).isNullable = true := by
        rw [h.tree_eq hi]
        rfl
      exact ⟨h, .refl p, lt_size hi, (StaticType.orUndefined_of_isNullable hn).symm⟩
    · next hi =>
      have hplain : (TypeShape.nullable inner).requested p.tree = (TypeShape.nullable inner).layered p.tree := by
        refine TypeShape.requested_of_plain fun t ht => Bool.eq_false_iff.mpr fun hn => ?_
        cases ht
        obtain ⟨innermost, hinner⟩ := isNullable_tree hn
        exact hi innermost hinner
      rw [hplain]
      refine h.add hparts fun inner' heq i => ?_
      cases heq
      exact hi i
  · next hne =>
    rw [TypeShape.requested_of_plain fun t ht => (hne t ht).elim]
    exact h.add hparts fun inner heq => (hne inner heq).elim

/-- The numbers of the pool that a substitution leads to. -/
theorem substitute (h : p.Sound) {s : Dict String TypeId} (hs : ∀ id ∈ s.values, id < p.size)
    {id : TypeId} (hid : id < p.size) :
    p.Answers ((p.tree id).substitute (s.mapValues p.tree)) (p.substitute s id) := by
  have hget (name : String) : (s.mapValues p.tree).get? name = (s.get? name).map p.tree :=
    s.get?_mapValues p.tree name
  induction id using Nat.strongRecOn with
  | ind id ih =>
    obtain ⟨shape, hshape⟩ := lt_size_iff.mp hid
    have same (ht : (p.tree id).substitute (s.mapValues p.tree) = p.tree id) :
        p.Answers ((p.tree id).substitute (s.mapValues p.tree)) (id, p) :=
      ⟨h, .refl p, hid, ht.symm⟩
    -- the part of a layer is replaced first, and the layer is put on top again
    have part {inner : TypeId} (hlt : inner < id) := ih inner hlt (Nat.lt_trans hlt hid)
    have wrap {inner : TypeId} (hlt : inner < id) (layer : TypeId → TypeShape)
        (hlayer : ∀ a, (layer a).parts = [a]) :
        p.Answers ((layer (p.substitute s inner).1).requested (p.substitute s inner).2.tree)
          ((p.substitute s inner).2.intern (layer (p.substitute s inner).1)) := by
      refine (part hlt).trans ((part hlt).sound.intern fun a ha => ?_)
      rw [hlayer, List.mem_singleton] at ha
      rw [ha]
      exact (part hlt).given
    rw [TypePool.substitute]
    split
    · next hshort =>
      refine same ?_
      rcases hshort with hempty | hprimitive
      · refine StaticType.substitute_of_unbound (h.isCollapsed_tree id) fun name => ?_
        have hnil : s.bindings = [] := List.eq_nil_of_length_eq_zero hempty
        rw [hget, Dict.get?, hnil]
        rfl
      · have hprim := h.primitives id hprimitive
        rw [hshape] at hprim
        rw [h.tree_eq hshape]
        have hmem : shape ∈ TypePool.primitives := List.mem_of_getElem? hprim.symm
        simp only [TypePool.primitives, List.mem_cons, List.not_mem_nil, or_false] at hmem
        rcases hmem with rfl | rfl | rfl | rfl <;> rfl
    · rw [hshape]
      have htree := h.tree_eq hshape
      have hparts := h.parts hshape
      cases shape with
      | param name =>
        show p.Answers _ ((s.get? name).getD id, p)
        cases hname : s.get? name with
        | none =>
          refine same ?_
          rw [htree, TypeShape.layered, StaticType.substitute, hget, hname]
          rfl
        | some other =>
          refine ⟨h, .refl p, hs other (Dict.mem_values hname), ?_⟩
          rw [htree, TypeShape.layered, StaticType.substitute, hget, hname]
          rfl
      | array inner =>
        have hlt := hparts inner (List.mem_singleton_self inner)
        have hanswers := wrap hlt .array fun _ => rfl
        simp only [TypeShape.requested, TypeShape.layered, (part hlt).tree] at hanswers
        simp only [if_pos hlt, htree, TypeShape.layered, StaticType.substitute]
        exact hanswers
      | nullable inner =>
        have hlt := hparts inner (List.mem_singleton_self inner)
        have hanswers := wrap hlt .nullable fun _ => rfl
        simp only [TypeShape.requested, (part hlt).tree] at hanswers
        simp only [if_pos hlt, htree, TypeShape.layered, StaticType.substitute]
        exact hanswers
      | _ => exact same (by rw [htree]; rfl)

end Sound

/-- The primitive types have no parts. -/
theorem shape?_initial {id : TypeId} {shape : TypeShape} (h : initial.shape? id = some shape) :
    shape ∈ primitives := by
  have hs : primitives[id]? = some shape := by simpa [shape?, initial] using h
  exact List.mem_of_getElem? hs

theorem sound_initial : initial.Sound where
  ids := fun {shape id} => by
    constructor
    · intro hid
      cases shape <;> cases hid <;> rfl
    · intro hs
      rcases id with _ | _ | _ | _ | id <;> cases hs <;> rfl
  parts := fun {id shape} hs part hpart => by
    have hmem := shape?_initial hs
    simp only [primitives, List.mem_cons, List.not_mem_nil, or_false] at hmem
    rcases hmem with rfl | rfl | rfl | rfl <;> cases hpart
  collapsed := fun hs => by
    have hmem := shape?_initial hs
    simp [primitives] at hmem
  primitives := fun id _ => by simp [shape?, initial]

/-! ## Sequences of operations -/

/-- An operation on a pool: arrays, nullables and all other types are entered as layers over numbers. -/
inductive Operation where
  | intern (shape : TypeShape)
  | substitute (s : Dict String TypeId) (id : TypeId)

namespace Operation

/-- The numbers that are passed to an operation. -/
def arguments : Operation → List TypeId
  | .intern shape => shape.parts
  | .substitute s id => id :: s.values

/-- The number that an operation gives out, and the pool afterwards. -/
def perform (p : TypePool) : Operation → TypeId × TypePool
  | .intern shape => p.intern shape
  | .substitute s id => p.substitute s id

/-- The type that is asked for. -/
def requested (p : TypePool) : Operation → StaticType
  | .intern shape => shape.requested p.tree
  | .substitute s id => (p.tree id).substitute (s.mapValues p.tree)

end Operation

theorem Sound.perform (h : p.Sound) {op : Operation} (ha : ∀ id ∈ op.arguments, id < p.size) :
    p.Answers (op.requested p) (op.perform p) := by
  cases op with
  | intern shape => exact h.intern ha
  | substitute s id =>
    exact h.substitute (fun other ho => ha other (List.mem_cons_of_mem _ ho))
      (ha id List.mem_cons_self)

/-- A pool in use: the types that have been asked for, with the numbers given out for them. -/
structure History where
  pool : TypePool
  answers : List (StaticType × TypeId)

namespace History

/-- Nothing has been asked for. -/
def initial : History := ⟨.initial, []⟩

def after (h : History) (op : Operation) : History :=
  ⟨(op.perform h.pool).2, (op.requested h.pool, (op.perform h.pool).1) :: h.answers⟩

/-- The numbers that may be passed to operations: those of primitive types and what was given out. -/
def Known (h : History) (id : TypeId) : Prop := id < primitiveCount ∨ id ∈ h.answers.map (·.2)

/-- One operation on known numbers. -/
def Step (h h' : History) : Prop :=
  ∃ op : Operation, (∀ id ∈ op.arguments, h.Known id) ∧ h' = h.after op

/-- Any number of operations. -/
def Leads : History → History → Prop := Relation.ReflTransGen Step

/-- The pool is sound, and the numbers given out stand for the types that were asked for. -/
structure Sound (h : History) : Prop where
  pool : h.pool.Sound
  answers : ∀ a ∈ h.answers, a.2 < h.pool.size ∧ h.pool.tree a.2 = a.1

variable {h h' : History}

theorem sound_initial : initial.Sound := ⟨TypePool.sound_initial, fun _ ha => by cases ha⟩

theorem Sound.lt_size (hs : h.Sound) {id : TypeId} (hid : h.Known id) : id < h.pool.size := by
  rcases hid with hid | hid
  · exact Nat.lt_of_lt_of_le hid hs.pool.initial_le
  · obtain ⟨a, ha, rfl⟩ := List.mem_map.mp hid
    exact (hs.answers a ha).1

theorem Sound.step (hs : h.Sound) (hstep : h.Step h') : h'.Sound ∧ h.pool.Extends h'.pool := by
  obtain ⟨op, hop, rfl⟩ := hstep
  have hanswer := hs.pool.perform fun id hid => hs.lt_size (hop id hid)
  refine ⟨⟨hanswer.sound, fun a ha => ?_⟩, hanswer.keeps⟩
  rcases List.mem_cons.mp ha with rfl | hold
  · exact ⟨hanswer.given, hanswer.tree⟩
  · obtain ⟨hlt, htree⟩ := hs.answers a hold
    refine ⟨hanswer.keeps.lt_size hlt, ?_⟩
    rw [← htree]
    exact hs.pool.tree_of_extends hanswer.sound hanswer.keeps hlt

theorem Sound.leads (hs : h.Sound) (hrun : h.Leads h') : h'.Sound ∧ h.pool.Extends h'.pool := by
  induction hrun with
  | refl => exact ⟨hs, .refl _⟩
  | tail _ hstep ih =>
    obtain ⟨hsound, hextends⟩ := ih.1.step hstep
    exact ⟨hsound, ih.2.trans hextends⟩

end History

/-- A pool keeps each type once. After any operations on known numbers, no layer is kept twice and the
table of numbers leads from each layer to its place and from nothing else; no nullable is the part of
a nullable, and parts have smaller numbers; the layer of a number that was known before is as it was,
and the numbers of the primitive types are 0 to 3. A number given out stands for the type that was
asked for, and two numbers are equal exactly if they stand for the same type. -/
theorem numbers_represent_types {h h' : History} (hrun : History.initial.Leads h)
    (hlater : h.Leads h') :
    h'.pool.shapes.toList.Nodup ∧
    (∀ shape id, h'.pool.ids.get? shape = some id ↔ h'.pool.shape? id = some shape) ∧
    (∀ id inner innermost, h'.pool.shape? id = some (.nullable inner) →
      h'.pool.shape? inner ≠ some (.nullable innermost)) ∧
    (∀ id shape, h'.pool.shape? id = some shape → ∀ part ∈ shape.parts, part < id) ∧
    (∀ id, h.Known id → ∃ shape, h.pool.shape? id = some shape ∧ h'.pool.shape? id = some shape) ∧
    (∀ id < primitiveCount, h'.pool.shape? id = primitives[id]?) ∧
    (∀ a ∈ h'.answers, h'.pool.tree a.2 = a.1) ∧
    ∀ i j, i < h'.pool.size → j < h'.pool.size →
      (h'.pool.tree i).IsCollapsed ∧ (i = j ↔ h'.pool.tree i = h'.pool.tree j) := by
  have hs := (History.sound_initial.leads hrun).1
  obtain ⟨hs', hextends⟩ := hs.leads hlater
  have hpool := hs'.pool
  refine ⟨?_, fun shape id => hpool.ids, fun id inner innermost hid => hpool.collapsed hid innermost,
    fun id shape hid => hpool.parts hid, fun id hknown => ?_, hpool.primitives,
    fun a ha => (hs'.answers a ha).2, fun i j hi hj => ⟨hpool.isCollapsed_tree i, ?_⟩⟩
  · rw [List.nodup_iff_getElem?_ne_getElem?]
    intro i j hij hj heq
    obtain ⟨shape, hshape⟩ := lt_size_iff.mp (show j < h'.pool.size from hj)
    rw [Array.getElem?_toList, Array.getElem?_toList] at heq
    exact Nat.ne_of_lt hij (hpool.shape_inj (heq.trans hshape) hshape)
  · obtain ⟨shape, hshape⟩ := lt_size_iff.mp (hs.lt_size hknown)
    exact ⟨shape, hshape, hextends.shape? hshape⟩
  · exact ⟨fun heq => by rw [heq], fun heq => hpool.tree_inj hi hj heq⟩

/-- `T`, `T[]` and `T[] | undefined` have been asked for. -/
def genericList : History :=
  [Operation.intern (.param "T"), .intern (.array 4), .intern (.nullable 5)].foldl .after .initial

/-- `T[] | undefined` once with `T[]` for `T`, and once with `int`. -/
def replacedList : History :=
  [Operation.substitute (.ofList [("T", 5)]) 6, .substitute (.ofList [("T", 0)]) 6].foldl .after
    genericList

theorem numbers_represent_types_list :
    History.initial.Leads genericList ∧ genericList.Leads replacedList ∧
    replacedList.answers.map (·.2) = [10, 8, 6, 5, 4] ∧
    replacedList.pool.tree 6 = (.nullable (.array (.param "T"))) ∧
    ∀ i < 11, ∀ j < 11, i = j ↔ replacedList.pool.tree i = replacedList.pool.tree j := by
  have after (h : History) (op : Operation) (hop : ∀ id ∈ op.arguments, h.Known id) :
      h.Step (h.after op) := ⟨op, hop, rfl⟩
  have hrun : History.initial.Leads genericList := by
    refine .tail (.tail (.tail .refl (after _ _ ?_)) (after _ _ ?_)) (after _ _ ?_) <;>
      simp only [History.Known] <;> decide +kernel
  have hlater : genericList.Leads replacedList := by
    refine .tail (.tail .refl (after _ _ ?_)) (after _ _ ?_) <;>
      simp only [History.Known] <;> decide +kernel
  have hsize : replacedList.pool.size = 11 := by decide +kernel
  obtain ⟨-, -, -, -, -, -, hanswers, hinj⟩ := numbers_represent_types hrun hlater
  refine ⟨hrun, hlater, by decide +kernel, hanswers (_, 6) (by decide +kernel), fun i hi j hj => ?_⟩
  exact (hinj i j (by rwa [hsize]) (by rwa [hsize])).2

end TypePool

end TypedLowering
