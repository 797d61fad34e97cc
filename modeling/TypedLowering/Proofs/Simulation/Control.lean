import TypedLowering.Proofs.Flow.Branch
import TypedLowering.Proofs.Semantics.Evaluation

/-!
Where control stands in a completed function while the code of one construct is run. Code that
computes a value leaves the stack cells alone and writes only the registers it defines; so what was
known about earlier values is known when it has run. `Performs` says this of the code that a generator
emits, and composes along the generator.
-/
namespace TypedLowering
set_option autoImplicit false
open Ssa Ssa.Function

/-! ## Steps of the machine -/

namespace Ssa.Function

variable {F : Function} {a a' : Activation} {b : BlockId}

theorem step_inst {v : ValueId} {rest : List ValueId} {d : Definition} (hr : a.rest = v :: rest)
    (hd : F.definition? v = some d) (hp : { a with rest }.perform v d.op = some a') :
    F.step (.running a) = some (.running a') := by
  simp [step, hr, hd, hp]

theorem step_leave {t : Terminator} (hr : a.rest = []) (ht : F.exit a.block = some t) :
    F.step (.running a) = F.leave a t := by
  simp [step, hr, ht]

/-- A block behind the first one has no slots. -/
theorem exists_block_body (hb : F.HasBlock b) (hne : b ≠ entry) :
    ∃ block, F.block? b = some block ∧ block.insts.toList = F.body b := by
  obtain ⟨block, hblock⟩ := hb.exists_block
  have hinsts := insts_eq hblock
  have hindex : b.index ≠ 0 := by
    intro h
    exact hne (by cases b; simp_all [entry])
  rw [if_neg hindex, List.nil_append] at hinsts
  exact ⟨block, hblock, hinsts⟩

theorem jump_eq (hb : F.HasBlock b) (hne : b ≠ entry) : F.jump a b = some (.running
    { a with block := b, rest := F.body b, origin := some (a.block, a.registers) }) := by
  obtain ⟨block, hblock, hinsts⟩ := exists_block_body hb hne
  simp [jump, hblock, hinsts]

/-! ## Where control stands -/

/-- Every stack slot has its cell. -/
structure Ready (F : Function) (a : Activation) : Prop where
  cells : ∀ {i : Nat} {v : ValueId}, F.slots[i]? = some v → a.registers v = some (.address i)
  memory : a.memory.length = F.slots.length

/-- Control stands right behind the code of `x`. -/
structure At (F : Function) (x : World) (a : Activation) : Prop extends F.Ready a where
  block : a.block = x.block
  rest : F.body x.block = x.fn.body x.block ++ a.rest

/-- Control stands at the head of a block. -/
structure Enters (F : Function) (b : BlockId) (a : Activation) : Prop extends F.Ready a where
  block : a.block = b
  rest : a.rest = F.body b

variable {x y : World} {t : Terminator}

theorem Ready.congr (h : F.Ready a) (hr : a'.registers = a.registers)
    (hm : a'.memory = a.memory) : F.Ready a' where
  cells := by
    rw [hr]
    exact h.cells
  memory := by
    rw [hm]
    exact h.memory

/-- What is no stack slot may be defined. -/
theorem Ready.define {f : Function} {v : ValueId} {d : Definition} {datum : Datum} (h : F.Ready a)
    (hF : F.Completes f) (hd : F.definition? v = some d) (hn : ∀ t, d.op ≠ .alloca t) :
    F.Ready (a.define v datum) where
  cells := by
    intro i u hi
    have hne : u ≠ v := by
      rintro rfl
      obtain ⟨t, ht⟩ := hF.slot (List.mem_of_getElem? hi)
      obtain rfl := Option.some.inj (hd.symm.trans ht)
      exact hn t rfl
    simpa [Activation.define, hne] using h.cells hi
  memory := h.memory

/-- Behind the code of `x` stands the instruction that leads to `y`. -/
theorem exists_next {d : Definition} {code : List ValueId}
    (h : F.body x.block = x.fn.body x.block ++ code) (hfn : y.fn = x.fn.append x.block d)
    (hb : y.block = x.block) (hF : F.Completes y.fn) : ∃ rest,
      code = x.fn.nextValue :: rest ∧ F.definition? x.fn.nextValue = some d ∧
      F.body y.block = y.fn.body y.block ++ rest := by
  have hbody : y.fn.body y.block = x.fn.body x.block ++ [x.fn.nextValue] := by
    rw [hfn, hb, body_append d x.flow.shaped x.inBlock, if_pos rfl]
  obtain ⟨rest, hrest⟩ := hF.body y.inBlock
  refine ⟨rest, ?_, hF.values (by rw [hfn]; exact definition?_append_next _ _ _), hrest.symm⟩
  rw [← hb, ← hrest, hbody, hb, List.append_assoc] at h
  exact (List.append_cancel_left h).symm

/-- The instruction that leads from `x` to `y` is the next to be performed. -/
theorem At.next {d : Definition} (h : F.At x a) (hfn : y.fn = x.fn.append x.block d)
    (hb : y.block = x.block) (hF : F.Completes y.fn) : ∃ rest,
      a.rest = x.fn.nextValue :: rest ∧ F.definition? x.fn.nextValue = some d ∧
      F.body y.block = y.fn.body y.block ++ rest := exists_next h.rest hfn hb hF

theorem At.congr (h : F.At x a) (hs : x.state = y.state) : F.At y a where
  toReady := h.toReady
  block := h.block.trans (congrArg (·.frame.block) hs)
  rest := by
    have hb : x.block = y.block := congrArg (·.frame.block) hs
    rw [← World.fn_eq_of_state hs, ← hb]
    exact h.rest

/-- A world that differs in its names or loops only has its code at the same place. -/
theorem At.moves (h : F.At x a) (hm : x.Moves y x.block) : F.At y a where
  toReady := h.toReady
  block := h.block.trans hm.block.symm
  rest := by
    rw [hm.fn, hm.block]
    exact h.rest

theorem Enters.at (h : F.Enters x.block a) (hx : x.HeadIn F) : F.At x a where
  toReady := h.toReady
  block := h.block
  rest := by rw [hx.empty, List.nil_append, h.rest]

theorem At.rest_nil (h : F.At x a) (hx : x.ClosedIn F t) : a.rest = [] := by
  have hr := h.rest
  rw [hx.body] at hr
  simpa using hr

theorem At.step_leave (h : F.At x a) (hx : x.ClosedIn F t) : F.step (.running a) = F.leave a t :=
  Function.step_leave (h.rest_nil hx) (by rw [h.block]; exact hx.exit)

theorem At.jump (h : F.At x a) (hb : F.HasBlock b) (hne : b ≠ entry) :
    ∃ a', F.jump a b = some (.running a') ∧ F.Enters b a' ∧ a'.registers = a.registers ∧
      a'.memory = a.memory ∧ a'.origin = some (x.block, a.registers) := by
  refine ⟨_, jump_eq hb hne, ?_, rfl, rfl, by rw [← h.block]⟩
  exact { toReady := h.toReady.congr rfl rfl, block := rfl, rest := rfl }

/-- A block that ends with a jump. -/
theorem At.br (h : F.At x a) (hx : x.ClosedIn F (.br b)) (hb : F.HasBlock b) (hne : b ≠ entry) :
    ∃ a', F.Steps (.running a) (.running a') ∧ F.Enters b a' ∧ a'.registers = a.registers ∧
      a'.memory = a.memory ∧ a'.origin = some (x.block, a.registers) := by
  obtain ⟨a', hj, he⟩ := h.jump hb hne
  exact ⟨a', .single ((h.step_leave hx).trans hj), he⟩

/-- A block that ends with a test. -/
theorem At.condBr {c : ValueId} {p : Bool} {thenBlock elseBlock : BlockId} (h : F.At x a)
    (hx : x.ClosedIn F (.condBr c thenBlock elseBlock))
    (hc : a.registers c = some (.word (.bool p)))
    (hb : F.HasBlock (if p then thenBlock else elseBlock))
    (hne : (if p then thenBlock else elseBlock) ≠ entry) :
    ∃ a', F.Steps (.running a) (.running a') ∧ F.Enters (if p then thenBlock else elseBlock) a' ∧
      a'.registers = a.registers ∧ a'.memory = a.memory ∧
      a'.origin = some (x.block, a.registers) := by
  obtain ⟨a', hj, he⟩ := h.jump hb hne
  have hw : a.word? c = some (.bool p) := by simp [Activation.word?, hc]
  refine ⟨a', .single ((h.step_leave hx).trans ?_), he⟩
  simp only [leave, hw]
  exact hj

/-! ## What is known -/

/-- The value stands for a word. -/
def Denotes (F : Function) (a : Activation) (w : Word) : Value → Prop
  | .rvalue v _ => a.registers v = some (.word w)
  | .assignable ⟨.slot ptr _, _⟩ =>
    ∃ i : Nat, F.slots[i]? = some ptr ∧ a.memory[i]? = some (some (.word w))
  | _ => False

end Ssa.Function

/-- Values and the words that they stand for. -/
abbrev Facts := List (Value × Word)

namespace Ssa.Function

def Knows (F : Function) (a : Activation) (facts : Facts) : Prop :=
  ∀ p ∈ facts, F.Denotes a p.2 p.1

theorem Knows.congr {F : Function} {a a' : Activation} {facts : Facts} (h : F.Knows a facts)
    (hr : a'.registers = a.registers) (hm : a'.memory = a.memory) : F.Knows a' facts := by
  intro p hp
  have hd := h p hp
  unfold Denotes at hd ⊢
  rw [hr, hm]
  exact hd

end Ssa.Function

/-- A computed operand or a variable. -/
def Value.isSimple : Value → Bool
  | .rvalue _ _ | .assignable ⟨.slot _ _, _⟩ => true
  | _ => false

/-- The values can be read and have the types of the words that they stand for. -/
def World.Offers (w : World) (facts : Facts) : Prop :=
  ∀ p ∈ facts, w.Holds p.1 ∧ p.1.type = p.2.type ∧ p.1.isSimple = true

theorem World.Offers.append {w : World} {l l' : Facts} (h : w.Offers l) (h' : w.Offers l') :
    w.Offers (l ++ l') := by
  intro p hp
  rcases List.mem_append.mp hp with hp | hp
  · exact h p hp
  · exact h' p hp

theorem World.Offers.later {w x : World} {facts : Facts} (h : w.Offers facts) (hl : w.Later x) :
    x.Offers facts :=
  fun p hp => ⟨fun u hu => hl.has ((h p hp).1 u hu), (h p hp).2⟩

namespace Ssa.Function

variable {F : Function} {a a' a'' : Activation} {w x y : World} {facts : Facts}

/-- The code between two worlds is run. -/
structure Runs (F : Function) (w x : World) (a a' : Activation) : Prop where
  steps : F.Steps (.running a) (.running a')
  stands : F.At x a'
  memory : a'.memory = a.memory
  registers : ∀ v : ValueId, v.index < w.fn.values.size → a'.registers v = a.registers v

namespace Runs

theorem refl (h : F.At w a) : F.Runs w w a a := ⟨.refl, h, rfl, fun _ _ => rfl⟩

theorem trans (h : F.Runs w x a a') (h' : F.Runs x y a' a'') (hl : w.Later x) :
    F.Runs w y a a'' where
  steps := h.steps.trans h'.steps
  stands := h'.stands
  memory := h'.memory.trans h.memory
  registers := fun v hv =>
    (h'.registers v (Nat.lt_of_lt_of_le hv hl.grows.size_values)).trans (h.registers v hv)

theorem knows (h : F.Runs w x a a') (ho : w.Offers facts) (hk : F.Knows a facts) :
    F.Knows a' facts := by
  intro p hp
  obtain ⟨hholds, -, hs⟩ := ho p hp
  have hd := hk p hp
  match hv : p.1, hs with
  | .rvalue v t, _ =>
    rw [hv] at hd hholds
    have hlt : v.index < w.fn.values.size :=
      w.flow.index_lt_of_known (World.holds_rvalue.mp hholds)
    exact (h.registers v hlt).trans hd
  | .assignable ⟨.slot ptr l, t⟩, _ =>
    rw [hv] at hd
    obtain ⟨i, hi, hm⟩ := hd
    exact ⟨i, hi, by rw [h.memory]; exact hm⟩

end Runs

end Ssa.Function

/-! ## Generators of code that computes -/

namespace Gen

variable {α β : Type} {env : Env} {w : Site} {facts facts' : Facts}

/-- The code of `m` runs through wherever `facts` are known, and then `f` of its result is known. -/
def Performs (env : Env) (w : Site) (facts : Facts) (m : Gen α) (f : α → Facts) : Prop :=
  w.Offers facts → ∀ r s, m env w.state = .ok r s → ∃ x : Site, x.state = s ∧ w ≤ x ∧
    x.Offers (f r) ∧ ∀ F : Function, F.Completes x.fn → ∀ a, F.At w.toWorld a → F.Knows a facts →
      ∃ a', F.Runs w.toWorld x.toWorld a a' ∧ F.Knows a' (f r)

namespace Performs

/-- The types of the facts may be used. -/
theorem assuming {m : Gen α} {f : α → Facts} (h : w.Offers facts → Performs env w facts m f) :
    Performs env w facts m f := fun ho => h ho ho

protected theorem pure {r : α} {f : α → Facts} (h : f r ⊆ facts) :
    Performs env w facts (pure r) f := by
  intro ho r' s hm
  obtain ⟨rfl, rfl⟩ := pure_ok hm
  refine ⟨w, rfl, le_refl w, fun p hp => ho p (h hp), ?_⟩
  intro F _ a ha hk
  exact ⟨a, .refl ha, fun p hp => hk p (h hp)⟩

protected theorem bind {m : Gen α} {k : α → Gen β} {f : α → Facts} {g : β → Facts}
    (hm : Performs env w facts m f)
    (hk : ∀ r (x : Site), w ≤ x → Performs env x (f r ++ facts) (k r) g) :
    Performs env w facts (m >>= k) g := by
  intro ho r s h
  obtain ⟨q, s₁, h₁, h⟩ := bind_ok h
  obtain ⟨x, rfl, hwx, hox, hrun⟩ := hm ho q s₁ h₁
  have hoff : x.Offers (f q ++ facts) := hox.append (ho.later (Site.later hwx))
  obtain ⟨y, hy, hxy, hoy, hrun'⟩ := hk q x hwx hoff r s h
  refine ⟨y, hy, hwx.trans hxy, hoy, ?_⟩
  intro F hF a ha hknow
  obtain ⟨a₁, hr₁, hk₁⟩ := hrun F (hF.trans (Site.later hxy).completes) a ha hknow
  have hall : F.Knows a₁ (f q ++ facts) := by
    intro p hp
    rcases List.mem_append.mp hp with hp | hp
    · exact hk₁ p hp
    · exact hr₁.knows ho hknow p hp
  obtain ⟨a₂, hr₂, hk₂⟩ := hrun' F hF a₁ hr₁.stands hall
  exact ⟨a₂, hr₁.trans hr₂ (Site.later hwx), hk₂⟩

/-- A first step that only looks something up. -/
theorem read {m : Gen α} {r : α} {k : α → Gen β} {g : β → Facts}
    (hm : m env w.state = .ok r w.state) (h : Performs env w facts (k r) g) :
    Performs env w facts (m >>= k) g := by
  intro ho r' s hs
  obtain ⟨q, s₁, h₁, h₂⟩ := bind_ok hs
  rw [hm] at h₁
  cases h₁
  exact h ho r' s h₂

theorem mono {m : Gen α} {f g : α → Facts} (h : Performs env w facts' m f) (hs : facts' ⊆ facts)
    (hg : ∀ r, g r ⊆ f r) : Performs env w facts m g := by
  intro ho r s hm
  obtain ⟨x, hx, hwx, hox, hrun⟩ := h (fun p hp => ho p (hs hp)) r s hm
  refine ⟨x, hx, hwx, fun p hp => hox p (hg r hp), ?_⟩
  intro F hF a ha hk
  obtain ⟨a', hr, hk'⟩ := hrun F hF a ha fun p hp => hk p (hs hp)
  exact ⟨a', hr, fun p hp => hk' p (hg r hp)⟩

/-- A step that fails performs anything. -/
theorem of_failure {m : Gen α} {f : α → Facts} (h : ∀ r s, m env w.state ≠ .ok r s) :
    Performs env w facts m f := fun _ r s hm => (h r s hm).elim

end Performs

end Gen

end TypedLowering
