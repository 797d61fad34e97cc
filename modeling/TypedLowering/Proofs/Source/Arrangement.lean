import TypedLowering.Proofs.Source.Placement

/-!
Conditions on the trees of a program. `Arranged` tells expressions and statements apart and no
more: unlike in `Placed`, a declaration may stand wherever a statement may. `Everywhere P` asks the same
of all nodes; `AppliesAt T` speaks of the types that calls pass for type parameters.
-/
namespace TypedLowering
set_option autoImplicit false

/-! ## Expressions and statements -/

/-- The kinds that a position takes, if declarations are statements like others. -/
def Position.takes : Position → SyntaxKind → Bool
  | .expression, k => k.isExpression
  | .statement, k | .item, k => !k.isExpression
  | .init, k => k.isExpression || k = .variableDeclaration

/-- A tree with expressions where expressions belong and statements where statements do. -/
inductive Node.Arranged : Position → Node → Prop
  | mk {p : Position} {n : Node} : p.takes n.kind = true →
    (∀ q c, (q, c) ∈ n.form.parts → Arranged q c) → Arranged p n

namespace Node.Arranged

variable {p : Position} {n : Node}

theorem takes (h : Arranged p n) : p.takes n.kind = true := by
  cases h with
  | mk ht _ => exact ht

theorem part (h : Arranged p n) {q : Position} {c : Node} (hc : (q, c) ∈ n.form.parts) :
    Arranged q c := by
  cases h with
  | mk _ hp => exact hp q c hc

/-- A `for` loop starts with an expression or a declaration. -/
theorem expression_or_declaration (h : Arranged .init n) :
    Arranged .expression n ∨ n.kind = .variableDeclaration := by
  have ht := h.takes
  simp only [Position.takes, Bool.or_eq_true, decide_eq_true_eq] at ht
  rcases ht with ht | ht
  · exact .inl ⟨ht, fun q c => h.part⟩
  · exact .inr ht

end Node.Arranged

/-- A program whose function bodies are statements and whose defaults are expressions. -/
structure Program.Arranged (p : Program) : Prop where
  body : ∀ {f decl n}, p.function? f = some decl → decl.body = some n → Node.Arranged .statement n
  default : ∀ {f decl q n}, p.function? f = some decl → q ∈ decl.params → q.default = some n →
    Node.Arranged .expression n

/-- Whether a tree is arranged and not deeper than a bound. -/
def Node.arrangedWithin : Nat → Position → Node → Bool
  | 0, _, _ => false
  | depth + 1, p, n => p.takes n.kind && n.form.parts.all fun q => q.2.arrangedWithin depth q.1

theorem Node.arranged_of_arrangedWithin {depth : Nat} {p : Position} {n : Node}
    (h : n.arrangedWithin depth p = true) : n.Arranged p := by
  induction depth generalizing p n with
  | zero => cases h
  | succ depth ih =>
    unfold arrangedWithin at h
    rw [Bool.and_eq_true, List.all_eq_true] at h
    exact ⟨h.1, fun q c hc => ih (h.2 (q, c) hc)⟩

/-- Whether the trees of a program are arranged and not deeper than a bound. -/
def Program.arrangedWithin (depth : Nat) (p : Program) : Bool :=
  p.functions.toList.all fun decl =>
    (decl.body.all fun n => n.arrangedWithin depth .statement) &&
      decl.params.all fun q => q.default.all fun n => n.arrangedWithin depth .expression

theorem Program.arranged_of_arrangedWithin (depth : Nat) {p : Program}
    (h : p.arrangedWithin depth = true) : p.Arranged := by
  have hdecl : ∀ {f decl}, p.function? f = some decl → decl ∈ p.functions.toList := fun hf =>
    Array.mem_toList_iff.mpr (Array.mem_of_getElem? hf)
  simp only [arrangedWithin, List.all_eq_true, Bool.and_eq_true, Option.all_eq_true] at h
  exact {
    body := fun hf hb => Node.arranged_of_arrangedWithin ((h _ (hdecl hf)).1 _ hb)
    default := fun hf hq hd => Node.arranged_of_arrangedWithin ((h _ (hdecl hf)).2 _ hq _ hd) }

/-! ## Conditions on every node -/

/-- A tree all of whose nodes have `P`. -/
inductive Node.Everywhere (P : Node → Prop) : Node → Prop
  | mk {n : Node} : P n → (∀ c ∈ n.children, Everywhere P c) → Everywhere P n

/-- Parts are children. -/
theorem Form.mem_children_of_mem_parts {α : Type} {form : Form α} {q : Position} {c : α}
    (h : (q, c) ∈ form.parts) : c ∈ form.children := by
  cases form <;> simp [Form.parts, Form.children] at h ⊢ <;> grind

namespace Node.Everywhere

variable {P : Node → Prop} {n : Node}

theorem here (h : Everywhere P n) : P n := by
  cases h with
  | mk hn _ => exact hn

theorem part (h : Everywhere P n) {q : Position} {c : Node} (hc : (q, c) ∈ n.form.parts) :
    Everywhere P c := by
  cases h with
  | mk _ hp => exact hp c (Form.mem_children_of_mem_parts hc)

theorem mono {Q : Node → Prop} (hPQ : ∀ n, P n → Q n) (h : Everywhere P n) : Everywhere Q n := by
  induction h with
  | mk hn _ ih => exact ⟨hPQ _ hn, ih⟩

theorem of_forall (h : ∀ n, P n) (n : Node) : Everywhere P n :=
  ⟨h n, fun c _hc => of_forall h c⟩
termination_by sizeOf n
decreasing_by exact Node.sizeOf_lt_of_mem_children _hc

end Node.Everywhere

/-- A program in whose trees all nodes have `P`. -/
structure Program.Everywhere (P : Node → Prop) (p : Program) : Prop where
  body : ∀ {f decl n}, p.function? f = some decl → decl.body = some n → Node.Everywhere P n
  default : ∀ {f decl q n}, p.function? f = some decl → q ∈ decl.params → q.default = some n →
    Node.Everywhere P n

theorem Program.Everywhere.mono {P Q : Node → Prop} {p : Program} (hPQ : ∀ n, P n → Q n)
    (h : p.Everywhere P) : p.Everywhere Q :=
  ⟨fun hf hn => (h.body hf hn).mono hPQ, fun hf hq hn => (h.default hf hq hn).mono hPQ⟩

theorem Program.everywhere_of_forall {P : Node → Prop} (h : ∀ n, P n) (p : Program) :
    p.Everywhere P :=
  ⟨fun _ _ => .of_forall h _, fun _ _ _ => .of_forall h _⟩

/-- Whether a tree passes a check at every node and is not deeper than a bound. -/
def Node.passesWithin (check : Node → Bool) : Nat → Node → Bool
  | 0, _ => false
  | depth + 1, n => check n && n.children.all (passesWithin check depth)

theorem Node.everywhere_of_passesWithin {check : Node → Bool} {depth : Nat} {n : Node}
    (h : n.passesWithin check depth = true) : n.Everywhere fun n => check n = true := by
  induction depth generalizing n with
  | zero => cases h
  | succ depth ih =>
    unfold passesWithin at h
    rw [Bool.and_eq_true, List.all_eq_true] at h
    exact ⟨h.1, fun c hc => ih (h.2 c hc)⟩

/-- Whether the trees of a program pass a check at every node and are not deeper than a bound. -/
def Program.passesWithin (check : Node → Bool) (depth : Nat) (p : Program) : Bool :=
  p.functions.toList.all fun decl =>
    (decl.body.all fun n => n.passesWithin check depth) &&
      decl.params.all fun q => q.default.all fun n => n.passesWithin check depth

theorem Program.everywhere_of_passesWithin {check : Node → Bool} (depth : Nat) {p : Program}
    (h : p.passesWithin check depth = true) : p.Everywhere fun n => check n = true := by
  have hdecl {f decl} (hf : p.function? f = some decl) : decl ∈ p.functions.toList :=
    Array.mem_toList_iff.mpr (Array.mem_of_getElem? hf)
  simp only [passesWithin, List.all_eq_true, Bool.and_eq_true, Option.all_eq_true] at h
  exact {
    body := fun hf hb => Node.everywhere_of_passesWithin ((h _ (hdecl hf)).1 _ hb)
    default := fun hf hq hd => Node.everywhere_of_passesWithin ((h _ (hdecl hf)).2 _ hq _ hd) }

/-! ## Type arguments -/

/-- A tree in which all calls pass types with `T` for type parameters. -/
abbrev Node.AppliesAt (T : StaticType → Prop) : Node → Prop :=
  Node.Everywhere fun n => ∀ s, n.signature? = some s → ∀ t ∈ s.typeArgs, T t

theorem Node.AppliesAt.typeArg {T : StaticType → Prop} {n : Node} (h : n.AppliesAt T) {s : Signature}
    (hs : n.signature? = some s) {t : StaticType} (ht : t ∈ s.typeArgs) : T t :=
  h.here s hs t ht

/-- A program whose calls pass types with `T` for type parameters. -/
abbrev Program.AppliesAt (T : StaticType → Prop) (p : Program) : Prop :=
  p.Everywhere fun n => ∀ s, n.signature? = some s → ∀ t ∈ s.typeArgs, T t

theorem Program.appliesAt_trivial (p : Program) : p.AppliesAt fun _ => True :=
  p.everywhere_of_forall fun _ _ _ _ _ => trivial

end TypedLowering
