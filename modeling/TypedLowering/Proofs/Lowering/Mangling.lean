import Mathlib.Data.String.Basic
import TypedLowering.Lowering.Mangling
import TypedLowering.Proofs.Source.Pool

/-!
Symbols can be read back. An identifier is delimited by its length, provided that neither it nor what
follows starts with a digit; a type by its first letter and what the letter announces; and the lists
of a symbol by their separators, since no type starts with one. So a symbol determines the owner, the
name, the parameter types and the type arguments, if classes are told apart by their names. Where the
types are those of a pool, it determines their numbers.
-/
namespace TypedLowering
set_option autoImplicit false

/-- Whether a text starts with a digit. -/
def startsWithDigit (s : String) : Bool := s.toList.head?.any Char.isDigit

/-- A type whose names do not start with digits and whose classes are those of their names. -/
def StaticType.NamedBy (classOf : String → ClassId) : StaticType → Prop
  | .object cls name => classOf name = cls ∧ startsWithDigit name = false
  | .param name => startsWithDigit name = false
  | .array t | .nullable t => t.NamedBy classOf
  | _ => True

namespace StaticType.NamedBy

variable {classOf : String → ClassId} {t : StaticType}

theorem orUndefined (h : t.NamedBy classOf) : t.orUndefined.NamedBy classOf := by
  unfold StaticType.orUndefined
  split
  · exact h
  · exact h

theorem substitute {subst : Substitution}
    (hs : ∀ {name u}, subst.get? name = some u → u.NamedBy classOf) (h : t.NamedBy classOf) :
    (t.substitute subst).NamedBy classOf := by
  induction t with
  | param name =>
    unfold StaticType.substitute
    cases hu : subst.get? name with
    | none => exact h
    | some u => exact hs hu
  | array t ih => exact ih h
  | nullable t ih => exact (ih h).orUndefined
  | _ => exact h

end StaticType.NamedBy

namespace Mangling

variable {s t x y : String}

/-! ## Identifiers -/

theorem startsWithDigit_append (hs : startsWithDigit s = false) (hx : startsWithDigit x = false) :
    startsWithDigit (s ++ x) = false := by
  unfold startsWithDigit at *
  rw [String.toList_append, List.head?_append]
  cases hc : s.toList.head? with
  | none => exact hx
  | some c => rwa [hc] at hs

/-- Texts of the same length in bytes in front of something. -/
theorem append_inj_of_utf8ByteSize (h : s ++ x = t ++ y) (hs : s.utf8ByteSize = t.utf8ByteSize) :
    s = t ∧ x = y := by
  have hl : s.toList ++ x.toList = t.toList ++ y.toList := by
    rw [← String.toList_append, ← String.toList_append, h]
  rw [← String.utf8Len_toList, ← String.utf8Len_toList] at hs
  have none {a b extra : List Char} (he : a = b ++ extra)
      (hab : String.utf8Len a = String.utf8Len b) : extra = [] := by
    rw [he, String.utf8Len_append] at hab
    exact String.utf8Len_eq_zero.mp (by omega)
  rw [← String.toList_inj, ← String.toList_inj]
  rcases List.append_eq_append_iff.mp hl with ⟨extra, he, hr⟩ | ⟨extra, he, hr⟩
  · obtain rfl := none he hs.symm
    exact ⟨by simpa using he.symm, hr⟩
  · obtain rfl := none he hs
    exact ⟨by simpa using he, hr.symm⟩

/-- The digits in front of a text that does not start with one. -/
theorem takeWhile_isDigit (n : Nat) (hx : startsWithDigit x = false) :
    (toString n ++ x).toList.takeWhile Char.isDigit = Nat.toDigits 10 n := by
  have hrest : x.toList.takeWhile Char.isDigit = [] := by
    unfold startsWithDigit at hx
    cases hl : x.toList with
    | nil => rfl
    | cons c l =>
      rw [hl] at hx
      exact List.takeWhile_cons_of_neg (by simpa using hx)
  rw [String.toList_append, Nat.toString_eq_repr, Nat.toList_repr, List.takeWhile_append_of_pos,
    hrest, List.append_nil]
  intro c hc
  exact Nat.isDigit_of_mem_toDigits (by decide) (by decide) hc

theorem toString_append_inj {n m : Nat} (hx : startsWithDigit x = false)
    (hy : startsWithDigit y = false) (h : toString n ++ x = toString m ++ y) : n = m ∧ x = y := by
  have hd : Nat.toDigits 10 n = Nat.toDigits 10 m := by
    rw [← takeWhile_isDigit n hx, h, takeWhile_isDigit m hy]
  have hn : n.repr = m.repr := by
    rw [← String.toList_inj, Nat.toList_repr, Nat.toList_repr, hd]
  rw [Nat.toString_eq_repr, Nat.toString_eq_repr, hn] at h
  have hnum := congrArg (fun digits => Nat.ofDigitChars 10 digits 0) hd
  exact ⟨by simpa using hnum, (String.append_right_inj _).mp h⟩

/-- An identifier can be told from what follows it. -/
theorem identifier_append_inj (hs : startsWithDigit s = false) (ht : startsWithDigit t = false)
    (hx : startsWithDigit x = false) (hy : startsWithDigit y = false)
    (h : identifier s ++ x = identifier t ++ y) : s = t ∧ x = y := by
  unfold identifier at h
  rw [String.append_assoc, String.append_assoc] at h
  obtain ⟨hn, h⟩ :=
    toString_append_inj (startsWithDigit_append hs hx) (startsWithDigit_append ht hy) h
  exact append_inj_of_utf8ByteSize h hn

/-! ## Types -/

/-- The first letter of the encoding of a type. -/
def tag : StaticType → Char
  | .int => 'i'
  | .number => 'n'
  | .boolean => 'b'
  | .void => 'v'
  | .array _ => 'A'
  | .nullable _ => 'N'
  | .object _ _ => 'C'
  | .builtin _ => 'M'
  | .param _ => 'P'

theorem head?_type_append (t : StaticType) (x : String) :
    (type t ++ x).toList.head? = some (tag t) := by
  cases t <;> simp [type, tag]

theorem tag_eq {t u : StaticType} (h : type t ++ x = type u ++ y) : tag t = tag u := by
  have ht := head?_type_append t x
  rw [h, head?_type_append] at ht
  exact (Option.some.inj ht).symm

/-- No type starts with a separator. -/
theorem type_append_ne (t : StaticType) (x y : String) : type t ++ x ≠ "$" ++ y := by
  intro h
  have ht := head?_type_append t x
  rw [h] at ht
  cases t <;> simp [tag] at ht

/-- A type can be told from what follows it. -/
theorem type_append_inj {classOf : String → ClassId} {t u : StaticType} (ht : t.NamedBy classOf)
    (hu : u.NamedBy classOf) (hx : startsWithDigit x = false) (hy : startsWithDigit y = false)
    (h : type t ++ x = type u ++ y) : t = u ∧ x = y := by
  have behind {c a b : String} (h : c ++ a ++ x = c ++ b ++ y) : a ++ x = b ++ y := by
    rw [String.append_assoc, String.append_assoc] at h
    exact (String.append_right_inj c).mp h
  -- the first letter leaves one constructor for `u`
  induction t generalizing u with
  | int | number | boolean | void =>
    cases u with
    | int | number | boolean | void =>
      first | exact ⟨rfl, (String.append_right_inj _).mp h⟩ | cases tag_eq h
    | _ => cases tag_eq h
  | array t ih =>
    cases u with
    | array u =>
      obtain ⟨rfl, hxy⟩ := ih (u := u) ht hu (behind h)
      exact ⟨rfl, hxy⟩
    | _ => cases tag_eq h
  | nullable t ih =>
    cases u with
    | nullable u =>
      obtain ⟨rfl, hxy⟩ := ih (u := u) ht hu (behind h)
      exact ⟨rfl, hxy⟩
    | _ => cases tag_eq h
  | object cls name =>
    cases u with
    | object cls' name' =>
      obtain ⟨hcls, hname⟩ := ht
      obtain ⟨hcls', hname'⟩ := hu
      obtain ⟨rfl, hxy⟩ := identifier_append_inj hname hname' hx hy (behind h)
      exact ⟨by rw [← hcls, ← hcls'], hxy⟩
    | _ => cases tag_eq h
  | builtin b =>
    cases u with
    | builtin b' =>
      cases b
      cases b'
      exact ⟨rfl, (String.append_right_inj _).mp h⟩
    | _ => cases tag_eq h
  | param name =>
    cases u with
    | param name' =>
      obtain ⟨rfl, hxy⟩ := identifier_append_inj ht hu hx hy (behind h)
      exact ⟨rfl, hxy⟩
    | _ => cases tag_eq h

/-! ## Lists of types -/

theorem paramPart_cons (t : StaticType) (ts : List StaticType) :
    paramPart (t :: ts) = "$" ++ type t ++ paramPart ts := by
  rw [paramPart, List.map_cons, String.join_cons]
  rfl

/-- The types behind the first type argument stand like parameters. -/
theorem typeArgPart_cons (t : StaticType) (ts : List StaticType) :
    typeArgPart (t :: ts) = "$$" ++ type t ++ paramPart ts := by
  have hrest (t : StaticType) (ts : List StaticType) :
      "$".intercalate ((t :: ts).map type) = type t ++ paramPart ts := by
    induction ts generalizing t with
    | nil => simp [paramPart]
    | cons u ts ih =>
      rw [List.map_cons, List.map_cons, String.intercalate_cons_cons, ← List.map_cons, ih,
        paramPart_cons]
      simp only [String.append_assoc]
  rw [typeArgPart, hrest, String.append_assoc]
  simp

/-- What may follow the parameter types: nothing, or type arguments. -/
def Closing (x : String) : Prop := x = "" ∨ ∃ rest, x = "$$" ++ rest

theorem closing_typeArgPart (ts : List StaticType) : Closing (typeArgPart ts) := by
  cases ts with
  | nil => exact .inl rfl
  | cons t ts => exact .inr ⟨_, (typeArgPart_cons t ts).trans String.append_assoc⟩

theorem Closing.ne_param (hx : Closing x) (t : StaticType) (y : String) :
    x ≠ "$" ++ (type t ++ y) := by
  rintro rfl
  rcases hx with h | ⟨rest, h⟩
  · simp [← String.toList_inj] at h
  · have hsep : "$$" ++ rest = "$" ++ ("$" ++ rest) := by simp [← String.toList_inj]
    rw [hsep] at h
    exact type_append_ne t y rest ((String.append_right_inj "$").mp h)

theorem startsWithDigit_paramPart (ps : List StaticType) (hx : Closing x) :
    startsWithDigit (paramPart ps ++ x) = false := by
  cases ps with
  | nil =>
    rcases hx with rfl | ⟨rest, rfl⟩
    · rfl
    · simp [startsWithDigit, paramPart]
  | cons t ts =>
    rw [paramPart_cons]
    simp [startsWithDigit]

section Lists

variable {classOf : String → ClassId} {ps qs ts us : List StaticType}

/-- Parameter types can be told from each other and from the type arguments. -/
theorem paramPart_append_inj (hps : ∀ t ∈ ps, t.NamedBy classOf) (hqs : ∀ t ∈ qs, t.NamedBy classOf)
    (hx : Closing x) (hy : Closing y) (h : paramPart ps ++ x = paramPart qs ++ y) :
    ps = qs ∧ x = y := by
  have cons_append (t : StaticType) (ts : List StaticType) (z : String) :
      paramPart (t :: ts) ++ z = "$" ++ (type t ++ (paramPart ts ++ z)) := by
    simp only [paramPart_cons, String.append_assoc]
  have nil_append (z : String) : paramPart [] ++ z = z := by simp [paramPart]
  induction ps generalizing qs with
  | nil =>
    cases qs with
    | nil => exact ⟨rfl, by simpa only [nil_append] using h⟩
    | cons q qs =>
      rw [nil_append, cons_append] at h
      exact (hx.ne_param _ _ h).elim
  | cons p ps ih =>
    cases qs with
    | nil =>
      rw [nil_append, cons_append] at h
      exact (hy.ne_param _ _ h.symm).elim
    | cons q qs =>
      rw [cons_append, cons_append] at h
      obtain ⟨rfl, hrest⟩ := type_append_inj (hps p List.mem_cons_self) (hqs q List.mem_cons_self)
        (startsWithDigit_paramPart ps hx) (startsWithDigit_paramPart qs hy)
        ((String.append_right_inj "$").mp h)
      obtain ⟨rfl, hxy⟩ := ih (fun t ht => hps t (List.mem_cons_of_mem _ ht))
        (fun t ht => hqs t (List.mem_cons_of_mem _ ht)) hrest
      exact ⟨rfl, hxy⟩

theorem typeArgPart_inj (hts : ∀ t ∈ ts, t.NamedBy classOf) (hus : ∀ t ∈ us, t.NamedBy classOf)
    (h : typeArgPart ts = typeArgPart us) : ts = us := by
  have cons_ne (t : StaticType) (ts : List StaticType) : typeArgPart (t :: ts) ≠ "" := by
    rw [typeArgPart_cons]
    simp [← String.toList_inj]
  have closed (ts : List StaticType) : paramPart ts = paramPart ts ++ "" := by simp
  cases ts with
  | nil =>
    cases us with
    | nil => rfl
    | cons u us => exact (cons_ne u us h.symm).elim
  | cons t ts =>
    cases us with
    | nil => exact (cons_ne t ts h).elim
    | cons u us =>
      rw [typeArgPart_cons, typeArgPart_cons, String.append_assoc, String.append_assoc,
        String.append_right_inj, closed ts, closed us] at h
      obtain ⟨rfl, hrest⟩ := type_append_inj (hts t List.mem_cons_self) (hus u List.mem_cons_self)
        (startsWithDigit_paramPart ts (.inl rfl)) (startsWithDigit_paramPart us (.inl rfl)) h
      obtain ⟨rfl, -⟩ := paramPart_append_inj (fun t ht => hts t (List.mem_cons_of_mem _ ht))
        (fun t ht => hus t (List.mem_cons_of_mem _ ht)) (.inl rfl) (.inl rfl) hrest
      rfl

/-! ## Symbols -/

/-- What follows the name in a symbol: a separator or nothing. -/
theorem lists_ne_dot (ps ts : List StaticType) (y : String) :
    paramPart ps ++ typeArgPart ts ≠ "." ++ y := by
  intro h
  have hd := congrArg (fun z => z.toList.head?) h
  cases ps with
  | nil => cases ts <;> simp [paramPart, typeArgPart] at hd
  | cons p ps => simp [paramPart_cons] at hd

/-- A symbol determines what it was made of. -/
theorem symbol_inj {owner owner' : Option String} {name name' : String}
    (ho : ∀ o, owner = some o → startsWithDigit o = false)
    (ho' : ∀ o, owner' = some o → startsWithDigit o = false)
    (hn : startsWithDigit name = false) (hn' : startsWithDigit name' = false)
    (hps : ∀ t ∈ ps, t.NamedBy classOf) (hqs : ∀ t ∈ qs, t.NamedBy classOf)
    (hts : ∀ t ∈ ts, t.NamedBy classOf) (hus : ∀ t ∈ us, t.NamedBy classOf)
    (h : symbol owner name ps ts = symbol owner' name' qs us) :
    owner = owner' ∧ name = name' ∧ ps = qs ∧ ts = us := by
  -- the name with what follows
  have lists {name name' : String} (hn : startsWithDigit name = false)
      (hn' : startsWithDigit name' = false)
      (h : identifier name ++ (paramPart ps ++ typeArgPart ts)
        = identifier name' ++ (paramPart qs ++ typeArgPart us)) :
      name = name' ∧ ps = qs ∧ ts = us := by
    obtain ⟨hname, h⟩ := identifier_append_inj hn hn'
      (startsWithDigit_paramPart ps (closing_typeArgPart ts))
      (startsWithDigit_paramPart qs (closing_typeArgPart us)) h
    obtain ⟨hpq, h⟩ :=
      paramPart_append_inj hps hqs (closing_typeArgPart ts) (closing_typeArgPart us) h
    exact ⟨hname, hpq, typeArgPart_inj hts hus h⟩
  have dot (x : String) : startsWithDigit ("." ++ x) = false := by simp [startsWithDigit]
  simp only [symbol, String.append_assoc, String.append_right_inj] at h
  cases owner with
  | none =>
    cases owner' with
    | none =>
      rw [ownerPart, String.empty_append, String.empty_append] at h
      exact ⟨rfl, lists hn hn' h⟩
    | some o' =>
      rw [ownerPart, ownerPart, String.empty_append, String.append_assoc] at h
      obtain ⟨-, h⟩ := identifier_append_inj hn (ho' o' rfl)
        (startsWithDigit_paramPart ps (closing_typeArgPart ts)) (dot _) h
      exact (lists_ne_dot _ _ _ h).elim
  | some o =>
    cases owner' with
    | none =>
      rw [ownerPart, ownerPart, String.empty_append, String.append_assoc] at h
      obtain ⟨-, h⟩ := identifier_append_inj (ho o rfl) hn' (dot _)
        (startsWithDigit_paramPart qs (closing_typeArgPart us)) h
      exact (lists_ne_dot _ _ _ h.symm).elim
    | some o' =>
      rw [ownerPart, ownerPart, String.append_assoc, String.append_assoc] at h
      obtain ⟨rfl, hrest⟩ := identifier_append_inj (ho o rfl) (ho' o' rfl) (dot _) (dot _) h
      exact ⟨rfl, lists hn hn' ((String.append_right_inj ".").mp hrest)⟩

/-- Of the symbols for more and fewer parameters of one function the first is longer. -/
theorem symbol_inj_of_sublist {owner : Option String} {name : String} (hpq : ps.Sublist qs)
    (h : symbol owner name ps ts = symbol owner name qs ts) : ps = qs := by
  have hlength : (paramPart ps).length = (paramPart qs).length := by
    have hl := congrArg String.length h
    simp only [symbol, String.length_append] at hl
    omega
  have hle : (paramPart ps).length + qs.length ≤ (paramPart qs).length + ps.length := by
    clear h hlength
    induction hpq with
    | slnil => exact Nat.le_refl _
    | cons t _ ih =>
      simp only [paramPart_cons, String.length_append, List.length_cons]
      have hsep : "$".length = 1 := rfl
      omega
    | cons_cons t _ ih =>
      simp only [paramPart_cons, String.length_append, List.length_cons]
      omega
  exact hpq.eq_of_length_le (by omega)

end Lists

end Mangling

/-! ## Symbols over a pool -/

namespace TypePool

variable {p : TypePool}

/-- A pool in which no two classes share a name and no name starts with a digit. -/
structure Distinguished (p : TypePool) : Prop where
  classes : ∀ {i j cls cls' name}, p.shape? i = some (.object cls name) →
    p.shape? j = some (.object cls' name) → i = j
  objects : ∀ {i cls name}, p.shape? i = some (.object cls name) → startsWithDigit name = false
  params : ∀ {i name}, p.shape? i = some (.param name) → startsWithDigit name = false

namespace Distinguished

/-- A name leads to the class of the pool that has it. -/
theorem exists_classOf (h : p.Distinguished) : ∃ classOf : String → ClassId,
    ∀ {i cls name}, p.shape? i = some (.object cls name) → classOf name = cls := by
  have named (name : String) :
      ∃ cls : ClassId, ∀ {i c}, p.shape? i = some (.object c name) → cls = c := by
    by_cases hex : ∃ i cls, p.shape? i = some (.object cls name)
    · obtain ⟨i, cls, hi⟩ := hex
      refine ⟨cls, fun {j c} hj => ?_⟩
      obtain rfl := h.classes hi hj
      cases hi.symm.trans hj
      rfl
    · exact ⟨⟨0⟩, fun {i c} hi => (hex ⟨i, c, hi⟩).elim⟩
  obtain ⟨classOf, hclassOf⟩ := Classical.skolem.mp named
  exact ⟨classOf, fun {i cls name} hi => hclassOf name hi⟩

theorem namedBy (h : p.Distinguished) (hp : p.Sound) {classOf : String → ClassId}
    (hclassOf : ∀ {i cls name}, p.shape? i = some (.object cls name) → classOf name = cls)
    {id : TypeId} (hid : id < p.size) : (p.tree id).NamedBy classOf := by
  induction id using Nat.strongRecOn with
  | ind id ih =>
    obtain ⟨shape, hs⟩ := lt_size_iff.mp hid
    have hparts (part : TypeId) (hpart : part ∈ shape.parts) : (p.tree part).NamedBy classOf := by
      have hlt := hp.parts hs part hpart
      exact ih part hlt (Nat.lt_trans hlt hid)
    rw [hp.tree_eq hs]
    cases shape with
    | array inner | nullable inner => exact hparts inner (List.mem_singleton_self inner)
    | object cls name => exact ⟨hclassOf hs, h.objects hs⟩
    | param name => exact h.params hs
    | _ => trivial

end Distinguished

/-- A pool tells lists of numbers apart by the types they stand for. -/
theorem Sound.map_tree_inj (hp : p.Sound) {ids ids' : List TypeId} (hids : ∀ id ∈ ids, id < p.size)
    (hids' : ∀ id ∈ ids', id < p.size) (h : ids.map p.tree = ids'.map p.tree) : ids = ids' := by
  induction ids generalizing ids' with
  | nil => exact (List.map_eq_nil_iff.mp h.symm).symm
  | cons id ids ih =>
    cases ids' with
    | nil => cases h
    | cons id' ids' =>
      rw [List.map_cons, List.map_cons, List.cons.injEq] at h
      obtain ⟨hid, hids⟩ := List.forall_mem_cons.mp hids
      obtain ⟨hid', hids'⟩ := List.forall_mem_cons.mp hids'
      rw [hp.tree_inj hid hid' h.1, ih hids hids' h.2]

end TypePool

/-- A symbol for types of a pool determines the owner, the name and the numbers of the types. -/
theorem symbol_determines_numbers {h : TypePool.History} (hrun : TypePool.History.initial.Leads h)
    (hp : h.pool.Distinguished) {owner owner' : Option String} {name name' : String}
    (ho : ∀ o, owner = some o → startsWithDigit o = false)
    (ho' : ∀ o, owner' = some o → startsWithDigit o = false)
    (hn : startsWithDigit name = false) (hn' : startsWithDigit name' = false)
    {ps qs ts us : List TypeId} (hps : ∀ id ∈ ps, id < h.pool.size)
    (hqs : ∀ id ∈ qs, id < h.pool.size) (hts : ∀ id ∈ ts, id < h.pool.size)
    (hus : ∀ id ∈ us, id < h.pool.size)
    (heq : Mangling.symbol owner name (ps.map h.pool.tree) (ts.map h.pool.tree)
      = Mangling.symbol owner' name' (qs.map h.pool.tree) (us.map h.pool.tree)) :
    owner = owner' ∧ name = name' ∧ ps = qs ∧ ts = us := by
  have hsound := (TypePool.History.sound_initial.leads hrun).1.pool
  obtain ⟨classOf, hclassOf⟩ := hp.exists_classOf
  have named {ids : List TypeId} (hids : ∀ id ∈ ids, id < h.pool.size) :
      ∀ t ∈ ids.map h.pool.tree, t.NamedBy classOf := by
    intro t ht
    obtain ⟨id, hid, rfl⟩ := List.mem_map.mp ht
    exact hp.namedBy hsound hclassOf (hids id hid)
  obtain ⟨howner, hname, hparams, hargs⟩ :=
    Mangling.symbol_inj ho ho' hn hn' (named hps) (named hqs) (named hts) (named hus) heq
  exact ⟨howner, hname, hsound.map_tree_inj hps hqs hparams, hsound.map_tree_inj hts hus hargs⟩

/-- A class with a separator in its name, a type parameter, and arrays of both: that of the class is
asked for again as that of the parameter, replaced by the class. -/
def arraysOfPoints : TypePool.History :=
  [.intern (.object ⟨0⟩ "a$$b"), .intern (.array 4), .intern (.param "T"), .intern (.array 6),
    .substitute (.ofList [("T", 4)]) 7].foldl TypePool.History.after .initial

theorem symbol_determines_numbers_arrays :
    TypePool.History.initial.Leads arraysOfPoints ∧ arraysOfPoints.pool.Distinguished ∧
    arraysOfPoints.answers.map (·.2) = [5, 7, 6, 5, 4] ∧
    (some "x.1" = some "x.1" ∧ "" = "" ∧ [5] = [(arraysOfPoints.pool.substitute (.ofList [("T", 4)]) 7).1]
      ∧ [7, 4] = [7, 4]) := by
  have after (h : TypePool.History) (op : TypePool.Operation) (hop : ∀ id ∈ op.arguments, h.Known id) :
      h.Step (h.after op) := ⟨op, hop, rfl⟩
  have hrun : TypePool.History.initial.Leads arraysOfPoints := by
    refine .tail (.tail (.tail (.tail (.tail .refl (after _ _ ?_)) (after _ _ ?_)) (after _ _ ?_))
      (after _ _ ?_)) (after _ _ ?_) <;> simp only [TypePool.History.Known] <;> decide +kernel
  have hshapes : arraysOfPoints.pool.shapes =
      #[.int, .number, .boolean, .void, .object ⟨0⟩ "a$$b", .array 4, .param "T", .array 6] := by
    decide +kernel
  have hnames {i : TypeId} {shape : TypeShape} (hi : arraysOfPoints.pool.shape? i = some shape) :
      (∀ cls name, shape = .object cls name → i = 4 ∧ name = "a$$b") ∧
      ∀ name, shape = .param name → name = "T" := by
    rw [TypePool.shape?, hshapes] at hi
    rcases i with _ | _ | _ | _ | _ | _ | _ | _ | i <;> cases hi <;> simp
  have hp : arraysOfPoints.pool.Distinguished := by
    refine ⟨fun hi hj => ?_, fun hi => ?_, fun hi => ?_⟩
    · rw [((hnames hi).1 _ _ rfl).1, ((hnames hj).1 _ _ rfl).1]
    · rw [((hnames hi).1 _ _ rfl).2]
      decide
    · rw [(hnames hi).2 _ rfl]
      decide
  refine ⟨hrun, hp, by decide +kernel, ?_⟩
  exact symbol_determines_numbers hrun hp (by decide) (by decide) (by decide) (by decide)
    (by decide +kernel) (by decide +kernel) (by decide +kernel) (by decide +kernel) (by decide +kernel)

end TypedLowering
