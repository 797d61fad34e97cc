import TypedLowering.Proofs.Source.Pool

/-!
Replacing type parameters. A replacement puts the types of a substitution in place of the parameters
once, and makes one nullable of those that come to stand under one another. One replacement after
another is a single one, by the substitution that the two compose to.

Main statements:

- `StaticType.collapse_replace`, `StaticType.params_substitute`, `StaticType.substitute_substitute`:
  what a replacement comes to, which parameters are left, and the law of composition;
- `TypePool.substitute_laws`: the same of the numbers that a pool gives out.
-/
namespace TypedLowering
set_option autoImplicit false

/-! ## Types -/

namespace StaticType

/-- The type parameters that occur in a type. -/
def params : StaticType → List String
  | .param name => [name]
  | .array t | .nullable t => t.params
  | _ => []

/-- The type with others in place of the bound parameters, whatever comes to stand under a
nullable. -/
def replace (s : Substitution) : StaticType → StaticType
  | .param name => (s.get? name).getD (.param name)
  | .array t => .array (t.replace s)
  | .nullable t => .nullable (t.replace s)
  | t => t

/-- The type with one nullable for those that stand directly under one another. -/
def collapse : StaticType → StaticType
  | .array t => .array t.collapse
  | .nullable t => t.collapse.orUndefined
  | t => t

variable {s s₁ s₂ : Substitution} {t : StaticType}

@[simp] theorem isNullable_orUndefined (t : StaticType) : t.orUndefined.isNullable = true := by
  cases t <;> rfl

@[simp] theorem orUndefined_orUndefined (t : StaticType) :
    t.orUndefined.orUndefined = t.orUndefined :=
  orUndefined_of_isNullable (isNullable_orUndefined t)

@[simp] theorem params_orUndefined (t : StaticType) : t.orUndefined.params = t.params := by
  cases t <;> rfl

theorem isGeneric_eq_false_iff : t.isGeneric = false ↔ t.params = [] := by
  induction t with
  | array t ih | nullable t ih => exact ih
  | param name => simp [isGeneric, params]
  | _ => simp [isGeneric, params]

theorem collapse_of_isCollapsed (h : t.IsCollapsed) : t.collapse = t := by
  induction t with
  | array t ih => rw [collapse, ih h]
  | nullable t ih => rw [collapse, ih h.2, orUndefined_of_not_isNullable h.1]
  | _ => rfl

/-- A replacement is made everywhere at once, and then nullables are collapsed. -/
theorem collapse_replace (hs : ∀ name u, s.get? name = some u → u.IsCollapsed) :
    (t.replace s).collapse = t.substitute s := by
  induction t with
  | array t ih => rw [replace, collapse, ih, substitute]
  | nullable t ih => rw [replace, collapse, ih, substitute]
  | param name =>
    rw [replace, substitute]
    cases h : s.get? name with
    | none => rfl
    | some u => exact collapse_of_isCollapsed (hs name u h)
  | _ => rfl

/-- Where no parameter that occurs is bound, nothing changes. -/
theorem substitute_of_free (ht : t.IsCollapsed) (h : ∀ name ∈ t.params, s.get? name = none) :
    t.substitute s = t := by
  induction t with
  | array t ih => rw [substitute, ih ht h]
  | nullable t ih => rw [substitute, ih ht.2 h, orUndefined_of_not_isNullable ht.1]
  | param name =>
    rw [substitute, h name List.mem_cons_self]
    rfl
  | _ => rfl

/-- In place of a bound parameter there are those of its type. -/
theorem params_substitute (t : StaticType) (s : Substitution) : (t.substitute s).params =
    t.params.flatMap fun name => (s.get? name).elim [name] params := by
  induction t with
  | array t ih => rw [substitute, params, ih, params]
  | nullable t ih => rw [substitute, params_orUndefined, ih, params]
  | param name =>
    rw [substitute, params, List.flatMap_singleton]
    cases s.get? name <;> rfl
  | _ => rfl

theorem substitute_orUndefined (t : StaticType) (s : Substitution) :
    t.orUndefined.substitute s = (t.substitute s).orUndefined := by
  cases t with
  | nullable t => rw [orUndefined_of_isNullable rfl, substitute, orUndefined_orUndefined]
  | _ => rfl

/-- One replacement after another is a single one that does the same to the parameters that occur. -/
theorem substitute_substitute_of_params (h : ∀ name ∈ t.params,
      ((s₁.get? name).getD (.param name)).substitute s₂ = (s.get? name).getD (.param name)) :
    (t.substitute s₁).substitute s₂ = t.substitute s := by
  induction t with
  | array t ih => rw [substitute, substitute, ih h, substitute]
  | nullable t ih => rw [substitute, substitute_orUndefined, ih h, substitute]
  | param name => exact h name List.mem_cons_self
  | _ => rfl

/-- One replacement after another is a single one. -/
theorem substitute_substitute
    (hs : ∀ name, s.get? name = ((s₁.get? name).map (·.substitute s₂)).or (s₂.get? name))
    (t : StaticType) : (t.substitute s₁).substitute s₂ = t.substitute s :=
  substitute_substitute_of_params fun name _ => by
    rw [hs]
    cases s₁.get? name <;> rfl

end StaticType

namespace Dict

variable {κ α β : Type} [DecidableEq κ]

theorem get?_cons (key other : κ) (value : α) (l : List (κ × α)) :
    (⟨(key, value) :: l⟩ : Dict κ α).get? other =
      if key = other then some value else (⟨l⟩ : Dict κ α).get? other := by
  unfold get?
  rw [List.find?_cons]
  split <;> simp_all

/-- Of the bindings that are added the first for a key wins. -/
theorem get?_foldr_insert (l : List (κ × α)) (d : Dict κ α) (key : κ) :
    (l.foldr (fun b d => d.insert b.1 b.2) d).get? key = ((⟨l⟩ : Dict κ α).get? key).or (d.get? key) := by
  induction l with
  | nil => rfl
  | cons b l ih =>
    rw [List.foldr_cons, get?_cons]
    split
    · next heq => rw [← heq, get?_insert_self, Option.some_or]
    · next hne => rw [get?_insert_of_ne _ _ hne, ih]

theorem mem_values_foldr_insert {l : List (κ × α)} {d : Dict κ α} {value : α}
    (h : value ∈ (l.foldr (fun b d => d.insert b.1 b.2) d).values) :
    (∃ b ∈ l, b.2 = value) ∨ value ∈ d.values := by
  induction l with
  | nil => exact .inr h
  | cons b l ih =>
    obtain ⟨c, hc, rfl⟩ := List.mem_map.mp h
    rcases List.mem_cons.mp hc with rfl | hc
    · exact .inl ⟨b, List.mem_cons_self, rfl⟩
    · rcases ih (List.mem_map_of_mem (List.mem_of_mem_filter hc)) with ⟨e, he, heq⟩ | hd
      · exact .inl ⟨e, List.mem_cons_of_mem b he, heq⟩
      · exact .inr hd

omit [DecidableEq κ] in
theorem mapValues_congr {f g : α → β} {d : Dict κ α} (h : ∀ a ∈ d.values, f a = g a) :
    d.mapValues f = d.mapValues g := by
  unfold mapValues
  congr 1
  exact List.map_congr_left fun b hb => by rw [h b.2 (List.mem_map_of_mem hb)]

end Dict

/-! ## Numbers -/

namespace TypePool

variable {p : TypePool}

theorem isGeneric_eq (p : TypePool) (id : TypeId) : p.isGeneric id = (p.tree id).isGeneric := by
  induction id using Nat.strongRecOn with
  | ind id ih =>
    rw [isGeneric, tree]
    cases p.shape? id with
    | none => rfl
    | some shape =>
      cases shape with
      | array inner | nullable inner =>
        dsimp only [StaticType.isGeneric]
        split
        · next hlt => exact ih inner hlt
        · rfl
      | _ => rfl

namespace Sound

variable (h : p.Sound)
include h

/-- A layer that is there is not entered again. -/
theorem intern_of_shape? {id : TypeId} {shape : TypeShape} (hs : p.shape? id = some shape) :
    p.intern shape = (id, p) := by
  have hadd : intern.add p shape = (id, p) := by rw [intern.add, h.ids.mpr hs]
  unfold TypePool.intern
  split
  · next inner =>
    split
    · next innermost hi => exact (h.collapsed hs innermost hi).elim
    · exact hadd
  · exact hadd

/-- Where no parameter that occurs is bound, the number stays, and so does the pool. -/
theorem substitute_of_free {s : Dict String TypeId} {id : TypeId} (hid : id < p.size)
    (hs : ∀ name ∈ (p.tree id).params, s.get? name = none) : p.substitute s id = (id, p) := by
  induction id using Nat.strongRecOn with
  | ind id ih =>
    obtain ⟨shape, hshape⟩ := lt_size_iff.mp hid
    rw [h.tree_eq hshape] at hs
    rw [TypePool.substitute]
    split
    · rfl
    · rw [hshape]
      cases shape with
      | param name =>
        have hname := hs name List.mem_cons_self
        simp only [hname, Option.getD_none]
      | array inner | nullable inner =>
        have hlt := h.parts hshape inner (List.mem_singleton_self inner)
        simp only [if_pos hlt, ih inner hlt (Nat.lt_trans hlt hid) hs]
        exact h.intern_of_shape? hshape
      | _ => rfl

end Sound

/-! ### Composition -/

/-- The numbers after a replacement, one binding after the other. -/
def substituteAll (p : TypePool) (s : Dict String TypeId) :
    List (String × TypeId) → List (String × TypeId) × TypePool
  | [] => ([], p)
  | b :: rest =>
    let r := p.substitute s b.2
    let rs := r.2.substituteAll s rest
    ((b.1, r.1) :: rs.1, rs.2)

/-- The substitution that two compose to: a parameter that `s₁` binds gets what `s₂` makes of its
type, any other the type that `s₂` has for it. -/
def compose (p : TypePool) (s₁ s₂ : Dict String TypeId) : Dict String TypeId × TypePool :=
  let r := p.substituteAll s₂ s₁.bindings
  (r.1.foldr (fun b s => s.insert b.1 b.2) s₂, r.2)

/-- The substitution `s` stands for what `s₁` and `s₂` compose to. -/
def Composes (p : TypePool) (s s₁ s₂ : Dict String TypeId) : Prop :=
  ∀ name, (s.get? name).map p.tree =
    ((s₁.get? name).map fun id => (p.tree id).substitute (s₂.mapValues p.tree)).or
      ((s₂.get? name).map p.tree)

variable {p' q : TypePool} {t : StaticType} {r r' : TypeId × TypePool}

/-- Whoever asks for the same type again gets the same number. -/
theorem Answers.unique (h : p.Answers t r) (he : r.2.Extends p') (h' : p'.Answers t r') :
    r'.1 = r.1 := by
  have hkeeps := he.trans h'.keeps
  refine h'.sound.tree_inj h'.given (hkeeps.lt_size h.given) ?_
  rw [h'.tree, h.sound.tree_of_extends h'.sound hkeeps h.given, h.tree]

namespace Sound

variable {s s₁ s₂ : Dict String TypeId}

theorem mapValues_of_extends (h : p.Sound) (h' : p'.Sound) (he : p.Extends p')
    (hs : ∀ id ∈ s.values, id < p.size) : s.mapValues p'.tree = s.mapValues p.tree :=
  Dict.mapValues_congr fun id hid => h.tree_of_extends h' he (hs id hid)

/-- What a replacement makes of the types of a substitution stays the same. -/
theorem map_substitute_of_extends (h : p.Sound) (h' : p'.Sound) (he : p.Extends p')
    (hs : ∀ id ∈ s.values, id < p.size) {d : Dict String TypeId} (hd : ∀ id ∈ d.values, id < p.size)
    (name : String) :
    ((d.get? name).map fun id => (p'.tree id).substitute (s.mapValues p'.tree)) =
      (d.get? name).map fun id => (p.tree id).substitute (s.mapValues p.tree) := by
  cases hname : d.get? name with
  | none => rfl
  | some id =>
    have hid := hd id (Dict.mem_values hname)
    rw [Option.map_some, Option.map_some, h.tree_of_extends h' he hid,
      h.mapValues_of_extends h' he hs]

theorem substituteAll (h : p.Sound) (hs : ∀ id ∈ s.values, id < p.size) {l : List (String × TypeId)}
    (hl : ∀ b ∈ l, b.2 < p.size) :
    (p.substituteAll s l).2.Sound ∧ p.Extends (p.substituteAll s l).2 ∧
    (∀ b ∈ (p.substituteAll s l).1, b.2 < (p.substituteAll s l).2.size) ∧
    ∀ name, ((⟨(p.substituteAll s l).1⟩ : Dict String TypeId).get? name).map
        (p.substituteAll s l).2.tree =
      ((⟨l⟩ : Dict String TypeId).get? name).map fun id =>
        (p.tree id).substitute (s.mapValues p.tree) := by
  induction l generalizing p with
  | nil => exact ⟨h, .refl p, fun _ hb => (List.not_mem_nil hb).elim, fun _ => rfl⟩
  | cons b l ih =>
    obtain ⟨hb, hl⟩ := List.forall_mem_cons.mp hl
    have hanswer := h.substitute hs hb
    obtain ⟨hsound, hkeeps, hgiven, hget⟩ := ih hanswer.sound
      (fun id hid => hanswer.keeps.lt_size (hs id hid)) fun b hb => hanswer.keeps.lt_size (hl b hb)
    refine ⟨hsound, hanswer.keeps.trans hkeeps, ?_, fun name => ?_⟩
    · exact List.forall_mem_cons.mpr ⟨hkeeps.lt_size hanswer.given, hgiven⟩
    · show ((⟨(b.1, (p.substitute s b.2).1) :: _⟩ : Dict String TypeId).get? name).map
          ((p.substitute s b.2).2.substituteAll s l).2.tree =
        ((⟨(b.1, b.2) :: l⟩ : Dict String TypeId).get? name).map _
      rw [Dict.get?_cons, Dict.get?_cons]
      split
      · rw [Option.map_some, Option.map_some,
          hanswer.sound.tree_of_extends hsound hkeeps hanswer.given, hanswer.tree]
      · have hvalues : ∀ id ∈ (⟨l⟩ : Dict String TypeId).values, id < p.size := by
          intro id hid
          obtain ⟨c, hc, rfl⟩ := List.mem_map.mp hid
          exact hl c hc
        rw [hget, h.map_substitute_of_extends hanswer.sound hanswer.keeps hs hvalues]

theorem compose (h : p.Sound) (h₁ : ∀ id ∈ s₁.values, id < p.size)
    (h₂ : ∀ id ∈ s₂.values, id < p.size) :
    (p.compose s₁ s₂).2.Sound ∧ p.Extends (p.compose s₁ s₂).2 ∧
    (∀ id ∈ (p.compose s₁ s₂).1.values, id < (p.compose s₁ s₂).2.size) ∧
    (p.compose s₁ s₂).2.Composes (p.compose s₁ s₂).1 s₁ s₂ := by
  obtain ⟨hsound, hkeeps, hgiven, hget⟩ := h.substituteAll h₂ (l := s₁.bindings) fun b hb =>
    h₁ b.2 (List.mem_map_of_mem hb)
  refine ⟨hsound, hkeeps, fun id hid => ?_, fun name => ?_⟩
  · rcases Dict.mem_values_foldr_insert hid with ⟨b, hb, rfl⟩ | hid
    · exact hgiven b hb
    · exact hkeeps.lt_size (h₂ id hid)
  · unfold TypePool.compose
    dsimp only
    rw [Dict.get?_foldr_insert, Option.map_or, hget, h.map_substitute_of_extends hsound hkeeps h₂ h₁]

variable (h₁ : ∀ id ∈ s₁.values, id < p.size) (h₂ : ∀ id ∈ s₂.values, id < p.size) {id : TypeId}
  (hid : id < p.size)
include h₁ h₂ hid

/-- One replacement after the other. -/
theorem substitute_twice (h : p.Sound) :
    p.Answers (((p.tree id).substitute (s₁.mapValues p.tree)).substitute (s₂.mapValues p.tree))
      ((p.substitute s₁ id).2.substitute s₂ (p.substitute s₁ id).1) := by
  have honce := h.substitute h₁ hid
  have htwice := honce.sound.substitute (fun i hi => honce.keeps.lt_size (h₂ i hi)) honce.given
  rw [honce.tree, h.mapValues_of_extends honce.sound honce.keeps h₂] at htwice
  exact honce.trans htwice

omit h₁ h₂ in
/-- The composed substitution leads to the same type in one step. -/
theorem substitute_composed (h : p.Sound) (hs : ∀ id ∈ s.values, id < p.size)
    (hc : p.Composes s s₁ s₂) :
    p.Answers (((p.tree id).substitute (s₁.mapValues p.tree)).substitute (s₂.mapValues p.tree))
      (p.substitute s id) := by
  rw [StaticType.substitute_substitute (s := s.mapValues p.tree)]
  · exact h.substitute hs hid
  · intro name
    rw [Dict.get?_mapValues, Dict.get?_mapValues, Dict.get?_mapValues, Option.map_map]
    exact hc name

/-- The substitution that is composed in a later pool still leads there. -/
theorem substitute_compose (h : p.Sound) (h' : p'.Sound) (he : p.Extends p') :
    (p'.compose s₁ s₂).2.Answers
      (((p.tree id).substitute (s₁.mapValues p.tree)).substitute (s₂.mapValues p.tree))
      ((p'.compose s₁ s₂).2.substitute (p'.compose s₁ s₂).1 id) := by
  obtain ⟨hsound, hkeeps, hs, hc⟩ :=
    h'.compose (fun i hi => he.lt_size (h₁ i hi)) fun i hi => he.lt_size (h₂ i hi)
  have he' := he.trans hkeeps
  have hanswer := hsound.substitute_composed (he'.lt_size hid) hs hc
  rwa [h.tree_of_extends hsound he' hid, h.mapValues_of_extends hsound he' h₁,
    h.mapValues_of_extends hsound he' h₂] at hanswer

end Sound

/-- What replacing type parameters comes to in a pool in use. The number that is given out stands for
the type with every bound parameter replaced at once and its nullables collapsed. Replacing by `s₁`
and then by `s₂` leads to the number that the composed substitution leads to, whichever is asked for
first. If every parameter that occurs is bound to a type without parameters, none is left, and if
none that occurs is bound, the number stays the same. -/
theorem substitute_laws {h : History} (hrun : History.initial.Leads h) {id : TypeId}
    (hid : id < h.pool.size) {s₁ s₂ : Dict String TypeId} (h₁ : ∀ i ∈ s₁.values, i < h.pool.size)
    (h₂ : ∀ i ∈ s₂.values, i < h.pool.size) :
    let p := h.pool
    let once := p.substitute s₁ id
    let twice := once.2.substitute s₂ once.1
    let late := twice.2.compose s₁ s₂
    let early := p.compose s₁ s₂
    let direct := early.2.substitute early.1 id
    let again := direct.2.substitute s₁ id
    once.2.tree once.1 = ((p.tree id).replace (s₁.mapValues p.tree)).collapse ∧
    (late.2.substitute late.1 id).1 = twice.1 ∧
    (again.2.substitute s₂ again.1).1 = direct.1 ∧
    ((∀ name ∈ (p.tree id).params, ∃ i, s₁.get? name = some i ∧ p.isGeneric i = false) →
      once.2.isGeneric once.1 = false) ∧
    ((∀ name ∈ (p.tree id).params, s₁.get? name = none) → once = (id, p)) := by
  intro p once twice late early direct again
  have hp : p.Sound := (History.sound_initial.leads hrun).1.pool
  have honce : p.Answers _ once := hp.substitute h₁ hid
  have htwice : p.Answers _ twice := hp.substitute_twice h₁ h₂ hid
  refine ⟨?_, ?_, ?_, fun hbound => ?_, fun hfree => hp.substitute_of_free hid hfree⟩
  · rw [honce.tree, StaticType.collapse_replace]
    intro name u hu
    obtain ⟨i, -, rfl⟩ := Option.map_eq_some_iff.mp ((s₁.get?_mapValues p.tree name).symm.trans hu)
    exact hp.isCollapsed_tree i
  · have hcomposed := hp.substitute_compose h₁ h₂ hid htwice.sound htwice.keeps
    exact htwice.unique (htwice.sound.compose (fun i hi => htwice.keeps.lt_size (h₁ i hi))
      fun i hi => htwice.keeps.lt_size (h₂ i hi)).2.1 hcomposed
  · have hdirect : early.2.Answers _ direct := hp.substitute_compose h₁ h₂ hid hp (.refl p)
    have he := (hp.compose h₁ h₂).2.1.trans hdirect.keeps
    have hagain := hdirect.sound.substitute_twice (fun i hi => he.lt_size (h₁ i hi))
      (fun i hi => he.lt_size (h₂ i hi)) (he.lt_size hid)
    rw [hp.tree_of_extends hdirect.sound he hid, hp.mapValues_of_extends hdirect.sound he h₁,
      hp.mapValues_of_extends hdirect.sound he h₂] at hagain
    exact hdirect.unique (.refl _) hagain
  · rw [isGeneric_eq, honce.tree, StaticType.isGeneric_eq_false_iff, StaticType.params_substitute,
      List.flatMap_eq_nil_iff]
    intro name hname
    obtain ⟨i, hi, hgeneric⟩ := hbound name hname
    rw [Dict.get?_mapValues, hi]
    rwa [isGeneric_eq, StaticType.isGeneric_eq_false_iff] at hgeneric

/-- `T | undefined` and `U | undefined`, with numbers 5 and 7, and `int[]`. -/
def optionalTypes : History :=
  [Operation.intern (.param "T"), .intern (.nullable 4), .intern (.param "U"), .intern (.nullable 6),
    .intern (.array 0)].foldl .after .initial

/-- `U | undefined` for `T` in `T | undefined`, and then `int[]` for `U`. -/
theorem substitute_laws_optional :
    let p := optionalTypes.pool
    let s₁ : Dict String TypeId := .ofList [("T", 7)]
    let s₂ : Dict String TypeId := .ofList [("U", 8), ("T", 1)]
    let once := p.substitute s₁ 5
    let twice := once.2.substitute s₂ once.1
    let late := twice.2.compose s₁ s₂
    History.initial.Leads optionalTypes ∧ (once.1 = 7 ∧ twice.1 = 9) ∧
      twice.2.tree twice.1 = .nullable (.array .int) ∧
      (late.1.get? "T" = some 9 ∧ late.1.get? "U" = some 8) ∧
      (late.2.substitute late.1 5).1 = twice.1 := by
  intro p s₁ s₂ once twice late
  have after (h : History) (op : Operation) (hop : ∀ id ∈ op.arguments, h.Known id) :
      h.Step (h.after op) := ⟨op, hop, rfl⟩
  have hrun : History.initial.Leads optionalTypes := by
    refine .tail (.tail (.tail (.tail (.tail .refl (after _ _ ?_)) (after _ _ ?_)) (after _ _ ?_))
      (after _ _ ?_)) (after _ _ ?_) <;> simp only [History.Known] <;> decide +kernel
  have hid : 5 < p.size := by decide +kernel
  have h₁ : ∀ i ∈ s₁.values, i < p.size := by decide +kernel
  have h₂ : ∀ i ∈ s₂.values, i < p.size := by decide +kernel
  exact ⟨hrun, by decide +kernel, by decide +kernel, by decide +kernel,
    (substitute_laws hrun hid h₁ h₂).2.1⟩

end TypePool

end TypedLowering
