import TypedLowering.Lowering.Compiler
import TypedLowering.Proofs.Lowering.Specialization
import TypedLowering.Proofs.Source.Arrangement

/-!
The specializations of a program are finitely many, if its calls pass only closed types and type
parameters: then every type that is ever passed for a type parameter is one that is written in the
program. `Program.definable` lists the symbols that definitions can get; how many of them are still
without a definition is what generation counts down.
-/
namespace TypedLowering
set_option autoImplicit false

/-! ## Types that are passed -/

namespace StaticType

/-- A type without type parameters, or a type parameter by itself. -/
def IsArgument (t : StaticType) : Prop := t.isGeneric = false ∨ ∃ name, t = .param name

/-- Substitution in a type without type parameters only puts it in normal form. -/
theorem substitute_of_closed {t : StaticType} (h : t.isGeneric = false) (subst subst' : Substitution) :
    t.substitute subst = t.substitute subst' := by
  induction t with
  | param name => cases h
  | array t ih => exact congrArg array (ih h)
  | nullable t ih => exact congrArg orUndefined (ih h)
  | _ => rfl

end StaticType

namespace Program

variable {p : Program}

/-- The type arguments that are written in a program. -/
def writtenArgs (p : Program) : List StaticType :=
  p.nodes.toList.flatMap fun n => n.signature?.toList.flatMap (·.typeArgs)

/-- What they come to if no type parameter is bound. -/
def argTypes (p : Program) : List StaticType :=
  p.writtenArgs.map fun t => t.substitute .empty

theorem length_writtenArgs (p : Program) : p.writtenArgs.length = p.typeArgCount := by
  unfold writtenArgs typeArgCount
  rw [← Array.foldr_toList]
  induction p.nodes.toList with
  | nil => rfl
  | cons n rest ih =>
    rw [List.flatMap_cons, List.length_append, ih, List.foldr_cons]
    unfold Node.typeArgCount
    cases n.signature? <;> simp

/-- Wherever a type argument is passed on, it is one of the written ones. -/
theorem mem_argTypes {t : StaticType} (ht : t ∈ p.writtenArgs) (ha : t.IsArgument)
    {subst : Substitution} (hs : ∀ name u, subst.get? name = some u → u ∈ p.argTypes) :
    t.substitute subst ∈ p.argTypes := by
  have hwritten : t.substitute .empty ∈ p.argTypes := List.mem_map.mpr ⟨t, ht, rfl⟩
  rcases ha with hclosed | ⟨name, rfl⟩
  · rwa [StaticType.substitute_of_closed hclosed subst .empty]
  · unfold StaticType.substitute
    cases hu : subst.get? name with
    | none => exact hwritten
    | some u => exact hs name u hu

end Program

/-! ## Choices -/

/-- The lists of a length over a list. -/
def tuples {α : Type} (l : List α) : Nat → List (List α)
  | 0 => [[]]
  | k + 1 => l.flatMap fun a => (tuples l k).map (a :: ·)

section Tuples

variable {α : Type} {l : List α}

theorem length_tuples (l : List α) (k : Nat) : (tuples l k).length = Nat.pow l.length k := by
  induction k with
  | zero => rfl
  | succ k ih => simp [tuples, List.length_flatMap, ih, Nat.pow_succ, Nat.mul_comm]

theorem mem_tuples : ∀ {xs : List α}, (∀ x ∈ xs, x ∈ l) → xs ∈ tuples l xs.length
  | [], _ => List.mem_singleton_self _
  | x :: xs, h => List.mem_flatMap.mpr ⟨x, h x List.mem_cons_self, List.mem_map.mpr
      ⟨xs, mem_tuples fun y hy => h y (List.mem_cons_of_mem _ hy), rfl⟩⟩

end Tuples

/-! ## Symbols -/

/-- The symbol of a function at type arguments with its first `count` arguments passed. -/
def FunctionDecl.symbolAt (p : Program) (decl : FunctionDecl) (count : Nat)
    (typeArgs : List StaticType) : String :=
  let subst : Substitution := .ofList (decl.typeParams.zip typeArgs)
  Mangling.symbol (decl.owner.map p.className) decl.name
    ((decl.params.zipIdx.filter fun q => q.1.variadic || decide (q.2 < count)).map fun q =>
      q.1.type.substitute subst) typeArgs

/-- The symbols of the specializations of a function. -/
def FunctionDecl.definable (p : Program) (decl : FunctionDecl) : List String :=
  (List.range (decl.params.length + 1)).flatMap fun count =>
    (tuples p.argTypes decl.typeParams.length).map (decl.symbolAt p count)

/-- The symbols of all specializations. -/
def Program.definable (p : Program) : List String := p.functions.toList.flatMap (·.definable p)

theorem Program.length_definable (p : Program) : p.definable.length ≤ p.specializationBound := by
  have hone (decl : FunctionDecl) : (decl.definable p).length ≤
      (decl.params.length + 1) * Nat.pow (p.typeArgCount + 1) decl.typeParams.length := by
    have hargs : p.argTypes.length ≤ p.typeArgCount + 1 := by
      rw [argTypes, List.length_map, length_writtenArgs]
      exact Nat.le_succ _
    calc (decl.definable p).length
        = (decl.params.length + 1) * p.argTypes.length ^ decl.typeParams.length := by
          simp [FunctionDecl.definable, List.length_flatMap, length_tuples]
      _ ≤ (decl.params.length + 1) * (p.typeArgCount + 1) ^ decl.typeParams.length :=
          Nat.mul_le_mul_left _ (Nat.pow_le_pow_left hargs _)
  unfold definable specializationBound
  rw [← Array.foldr_toList]
  induction p.functions.toList with
  | nil => exact Nat.le_refl 0
  | cons decl rest ih =>
    rw [List.flatMap_cons, List.length_append, List.foldr_cons]
    exact Nat.add_le_add (hone decl) ih

/-- More arguments than parameters supply what all parameters' arguments supply. -/
theorem FunctionDecl.symbolAt_min (p : Program) (decl : FunctionDecl) (count : Nat)
    (typeArgs : List StaticType) :
    decl.symbolAt p (min count decl.params.length) typeArgs = decl.symbolAt p count typeArgs := by
  unfold symbolAt
  have hfilter : (decl.params.zipIdx.filter fun q =>
        q.1.variadic || decide (q.2 < min count decl.params.length)) =
      decl.params.zipIdx.filter fun q => q.1.variadic || decide (q.2 < count) := by
    refine List.filter_congr fun q hq => ?_
    have hlt : q.2 < decl.params.length := (List.mem_zipIdx' hq).1
    rw [decide_eq_decide.mpr (show q.2 < min count decl.params.length ↔ q.2 < count by omega)]
  rw [hfilter]

/-- What is requested has one of the symbols. -/
theorem Specialization.symbol_mem_definable {p : Program} {func : FuncId} {decl : FunctionDecl}
    {typeArgs : List StaticType} {argCount : Nat} {span : Span} {s : Specialization}
    (hdecl : p.function? func = some decl)
    (h : resolve p func decl typeArgs argCount span = .ok s) (ha : ∀ t ∈ typeArgs, t ∈ p.argTypes) :
    s.symbol p ∈ p.definable := by
  have hlength : typeArgs.length = decl.typeParams.length := by
    by_contra hne
    unfold resolve at h
    rw [if_pos (Ne.symm hne)] at h
    cases h
  have hres := resolve_ok h
  have hsymbol : s.symbol p = decl.symbolAt p argCount typeArgs := by
    unfold symbol FunctionDecl.symbolAt
    rw [hres.suppliedParams_types, hres.owner_eq, hres.name_eq, hres.typeArgs_eq, hres.subst_eq]
  rw [hsymbol, ← decl.symbolAt_min]
  refine List.mem_flatMap.mpr ⟨decl, Array.mem_toList_iff.mpr (Array.mem_of_getElem? hdecl), ?_⟩
  have hcount : min argCount decl.params.length ∈ List.range (decl.params.length + 1) :=
    List.mem_range.mpr (Nat.lt_succ_of_le (Nat.min_le_right _ _))
  refine List.mem_flatMap.mpr ⟨_, hcount, List.mem_map.mpr ⟨typeArgs, ?_, rfl⟩⟩
  rw [← hlength]
  exact mem_tuples ha

/-! ## What is left to generate -/

/-- The number of symbols in a list that have no definition. -/
def UnitState.lacks (u : UnitState) (symbols : List String) : Nat :=
  symbols.countP fun symbol => (u.specializations.get? symbol).isNone

/-- The number of symbols without a definition. -/
def UnitState.pending (p : Program) (u : UnitState) : Nat :=
  p.definable.countP fun symbol => (u.specializations.get? symbol).isNone

theorem UnitState.pending_le (p : Program) (u : UnitState) : u.pending p ≤ p.specializationBound :=
  Nat.le_trans List.countP_le_length p.length_definable

theorem countP_lt_countP {α : Type} {P Q : α → Bool} {a : α} :
    ∀ {l : List α}, (∀ b ∈ l, P b = true → Q b = true) → a ∈ l → P a = false → Q a = true →
      l.countP P < l.countP Q
  | [], _, ha, _, _ => by cases ha
  | b :: l, hle, ha, hp, hq => by
    have hrest : ∀ c ∈ l, P c = true → Q c = true := fun c hc => hle c (List.mem_cons_of_mem _ hc)
    rw [List.countP_cons, List.countP_cons]
    rcases List.mem_cons.mp ha with rfl | ha
    · rw [hp, hq]
      exact Nat.lt_succ_of_le (List.countP_mono_left hrest)
    · have hlt := countP_lt_countP hrest ha hp hq
      have hb : (if P b = true then 1 else 0) ≤ if Q b = true then 1 else 0 := by
        by_cases h : P b = true
        · exact Nat.le_of_eq (by rw [if_pos h, if_pos (hle b List.mem_cons_self h)])
        · rw [if_neg h]
          exact Nat.zero_le _
      omega

theorem UnitState.lacks_pos {symbols : List String} {u : UnitState} {symbol : String}
    (hs : symbol ∈ symbols) (hnone : u.specializations.get? symbol = none) : 0 < u.lacks symbols :=
  List.countP_pos_iff.mpr ⟨symbol, hs, by rw [hnone]; rfl⟩

theorem UnitState.lacks_lt {symbols : List String} {u u' : UnitState} {symbol : String}
    {id : Ssa.FunctionId} (hs : symbol ∈ symbols) (hnone : u.specializations.get? symbol = none)
    (hu : u'.specializations = u.specializations.insert symbol id) :
    u'.lacks symbols < u.lacks symbols := by
  unfold lacks
  rw [hu]
  refine countP_lt_countP (fun other _ hother => ?_) hs ?_ (by rw [hnone]; rfl)
  · have hne : symbol ≠ other := by
      rintro rfl
      rw [Dict.get?_insert_self] at hother
      cases hother
    rwa [Dict.get?_insert_of_ne _ _ hne] at hother
  · rw [Dict.get?_insert_self]
    rfl

/-- A definition that is entered is no longer left to generate. -/
theorem UnitState.pending_lt {p : Program} {u u' : UnitState} {symbol : String} {id : Ssa.FunctionId}
    (hs : symbol ∈ p.definable) (hnone : u.specializations.get? symbol = none)
    (hu : u'.specializations = u.specializations.insert symbol id) : u'.pending p < u.pending p :=
  lacks_lt hs hnone hu

end TypedLowering
