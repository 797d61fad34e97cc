import TypedLowering.Proofs.Semantics.Heap
import TypedLowering.Proofs.Simulation.Operator

/-!
Where control stands in a completed function on the machine with heap cells. As on the machine with
stack slots, code that computes a value writes only the registers that it defines; here it is also
said which cells it reads, in their order.
-/
namespace TypedLowering
set_option autoImplicit false
open Ssa

namespace Ssa.Heap

variable {cells : Cells} {F : Function} {a a' : State} {b : BlockId}

/-! ## Steps of the machine -/

theorem step_inst {v : ValueId} {rest : List ValueId} {d : Definition} {content : Content}
    {read : List Nat} (hr : a.rest = v :: rest) (hd : F.definition? v = some d)
    (hc : { a with rest }.result? cells d = some (content, read)) : step cells F a =
      some { State.define { a with rest } v content with loads := a.loads ++ read } := by
  simp [step, State.perform, hr, hd, hc]

theorem step_leave {t : Terminator} (hr : a.rest = []) (ht : F.exit a.block = some t) :
    step cells F a = leave F a t := by
  simp [step, hr, ht]

theorem jump_eq (hb : F.HasBlock b) (hne : b ≠ Function.entry) : jump F a b = some
    { a with block := b, rest := F.body b, origin := some (a.block, a.registers) } := by
  obtain ⟨block, hblock, hinsts⟩ := Function.exists_block_body hb hne
  simp [jump, hblock, hinsts]

/-! ## Where control stands -/

/-- Control stands right behind the code of `x`. -/
structure At (F : Function) (x : World) (a : State) : Prop where
  block : a.block = x.block
  rest : F.body x.block = x.fn.body x.block ++ a.rest

/-- Control stands at the head of a block. -/
structure Enters (F : Function) (b : BlockId) (a : State) : Prop where
  block : a.block = b
  rest : a.rest = F.body b

variable {w x y z : World} {t : Terminator}

theorem At.congr (h : At F x a) (hs : x.state = y.state) : At F y a where
  block := h.block.trans (congrArg (·.frame.block) hs)
  rest := by
    have hb : x.block = y.block := congrArg (·.frame.block) hs
    rw [← World.fn_eq_of_state hs, ← hb]
    exact h.rest

theorem Enters.at (h : Enters F x.block a) (hx : x.HeadIn F) : At F x a where
  block := h.block
  rest := by rw [hx.empty, List.nil_append, h.rest]

/-- At the end of a block control leaves it. -/
theorem At.step_leave (h : At F x a) (hx : x.ClosedIn F t) : step cells F a = leave F a t := by
  refine Heap.step_leave ?_ (by rw [h.block]; exact hx.exit)
  have hr := h.rest
  rw [hx.body] at hr
  simpa using hr

/-- `a'` is `a` at the head of another block. -/
structure Passes (cells : Cells) (F : Function) (x : World) (b : BlockId) (a a' : State) :
    Prop where
  steps : Steps cells F a a'
  enters : Enters F b a'
  registers : a'.registers = a.registers
  loads : a'.loads = a.loads
  origin : a'.origin = some (x.block, a.registers)

theorem At.jump (h : At F x a) (hx : step cells F a = jump F a b) (hb : F.HasBlock b)
    (hne : b ≠ Function.entry) : ∃ a', Passes cells F x b a a' := by
  rw [jump_eq hb hne] at hx
  exact ⟨_, .single hx, ⟨rfl, rfl⟩, rfl, rfl, by rw [← h.block]⟩

/-- A block that ends with a jump. -/
theorem At.br (h : At F x a) (hx : x.ClosedIn F (.br b)) (hb : F.HasBlock b)
    (hne : b ≠ Function.entry) : ∃ a', Passes cells F x b a a' :=
  h.jump (h.step_leave hx) hb hne

/-- A block that ends with a test. -/
theorem At.condBr {c : ValueId} {p : Bool} {thenBlock elseBlock : BlockId} (h : At F x a)
    (hx : x.ClosedIn F (.condBr c thenBlock elseBlock)) (hc : a.registers c = some (.bool p))
    (hb : F.HasBlock (if p then thenBlock else elseBlock))
    (hne : (if p then thenBlock else elseBlock) ≠ Function.entry) :
    ∃ a', Passes cells F x (if p then thenBlock else elseBlock) a a' := by
  refine h.jump ((h.step_leave hx).trans ?_) hb hne
  simp [leave, hc, Content.word?]

/-! ## What is known -/

end Ssa.Heap

/-- Values and what is in their registers. -/
abbrev Contents := List (ValueId × Ssa.Heap.Content)

/-- The values can be read. -/
def World.Supplies (w : World) (contents : Contents) : Prop := ∀ p ∈ contents, w.Has p.1

theorem World.Supplies.later {w x : World} {contents : Contents} (h : w.Supplies contents)
    (hl : w.Later x) : x.Supplies contents :=
  fun p hp => hl.has (h p hp)

theorem World.Supplies.append {w : World} {l l' : Contents} (h : w.Supplies l)
    (h' : w.Supplies l') : w.Supplies (l ++ l') := by
  intro p hp
  rcases List.mem_append.mp hp with hp | hp
  · exact h p hp
  · exact h' p hp

namespace Ssa.Heap

/-- The registers hold what is said. -/
def State.Knows (a : State) (contents : Contents) : Prop :=
  ∀ p ∈ contents, a.registers p.1 = some p.2

variable {cells : Cells} {F : Function} {a a' a'' : State} {w x y z : World}
  {contents : Contents} {loads loads' : List Nat}

/-- The code between two worlds is run and reads the cells `loads`. -/
structure Runs (cells : Cells) (F : Function) (w x : World) (loads : List Nat)
    (a a' : State) : Prop where
  steps : Steps cells F a a'
  stands : At F x a'
  loads : a'.loads = a.loads ++ loads
  registers : ∀ v : ValueId, v.index < w.fn.values.size → a'.registers v = a.registers v

namespace Runs

theorem refl (h : At F w a) : Runs cells F w w [] a a :=
  ⟨.refl, h, (List.append_nil _).symm, fun _ _ => rfl⟩

theorem trans (h : Runs cells F w x loads a a') (h' : Runs cells F x y loads' a' a'')
    (hl : w.Later x) : Runs cells F w y (loads ++ loads') a a'' where
  steps := h.steps.trans h'.steps
  stands := h'.stands
  loads := by rw [h'.loads, h.loads, List.append_assoc]
  registers := fun v hv =>
    (h'.registers v (Nat.lt_of_lt_of_le hv hl.grows.size_values)).trans (h.registers v hv)

theorem knows (h : Runs cells F w x loads a a') (ho : w.Supplies contents)
    (hk : a.Knows contents) : a'.Knows contents := by
  intro p hp
  exact (h.registers p.1 (w.flow.index_lt_of_known (ho p hp))).trans (hk p hp)

end Runs

/-- A phi takes the value of the way that control came. -/
theorem Enters.join {z' : World} {r v : ValueId} {b : BlockId} {incoming : List (ValueId × BlockId)}
    {registers : Registers} {d : Content} (h : Enters F z.block a) (hz : z.HeadIn F)
    (hj : z.Joins z' r incoming) (hF : F.Completes z'.fn) (ho : a.origin = some (b, registers))
    (hv : (v, b) ∈ incoming) (hd : registers v = some d) :
    ∃ a', Runs cells F z z' [] a a' ∧ a'.registers r = some d := by
  obtain ⟨t, hfn⟩ := hj.fn
  obtain rfl := hj.value
  obtain ⟨rest, hrest, hdef, hbody⟩ := Function.exists_next (h.at hz).rest hfn hj.block hF
  have hresult : { a with rest }.result? cells (.phi t incoming) = some (d, []) := by
    simp [State.result?, Definition.phi, State.arm?, ho, hj.find? hv, hd]
  refine ⟨_, ⟨.single (step_inst hrest hdef hresult), ⟨h.block.trans hj.block.symm, hbody⟩, rfl, ?_⟩,
    by simp [State.define]⟩
  intro u hu
  have hne : u ≠ z.fn.nextValue := by
    rintro rfl
    exact Nat.lt_irrefl _ hu
  simp [State.define, hne]

/-- A run from `w` that has come to the phi behind `z`. -/
theorem Enters.runs {z' : World} {r v : ValueId} {b : BlockId} {incoming : List (ValueId × BlockId)}
    {registers : Registers} {d : Content} (h : Enters F z.block a') (hz : z.HeadIn F)
    (hj : z.Joins z' r incoming) (hF : F.Completes z'.fn) (hsteps : Steps cells F a a')
    (hloads : a'.loads = a.loads ++ loads) (hl : w.Later z)
    (hreg : ∀ u : ValueId, u.index < w.fn.values.size → a'.registers u = a.registers u)
    (ho : a'.origin = some (b, registers)) (hv : (v, b) ∈ incoming)
    (hd : registers v = some d) :
    ∃ a'', Runs cells F w z' loads a a'' ∧ a''.Knows [(r, d)] := by
  obtain ⟨a'', hruns, hr⟩ := h.join hz hj hF ho hv hd
  refine ⟨a'', ⟨hsteps.trans hruns.steps, hruns.stands, ?_, fun u hu => ?_⟩, by simpa [State.Knows]⟩
  · rw [hruns.loads, List.append_nil, hloads]
  · exact (hruns.registers u (Nat.lt_of_lt_of_le hu hl.grows.size_values)).trans (hreg u hu)

end Ssa.Heap

/-! ## Generators of code that computes -/

namespace Gen

open Ssa.Heap

variable {α β : Type} {env : Env} {cells : Cells} {w : Site} {contents contents' : Contents}
  {loads loads' : List Nat}

/-- The code of `m` runs through wherever `contents` are known, reading the cells `loads`, and then
`f` of its result is known. -/
def PerformsOn (env : Env) (cells : Cells) (w : Site) (contents : Contents) (m : Gen α)
    (f : α → Contents) (loads : List Nat) : Prop :=
  w.Supplies contents → ∀ r s, m env w.state = .ok r s → ∃ x : Site, x.state = s ∧ w ≤ x ∧
    x.Supplies (f r) ∧ ∀ F : Function, F.Completes x.fn → ∀ a, Heap.At F w.toWorld a →
      a.Knows contents → ∃ a', Heap.Runs cells F w.toWorld x.toWorld loads a a' ∧ a'.Knows (f r)

namespace PerformsOn

protected theorem pure {r : α} {f : α → Contents} (h : f r ⊆ contents) :
    PerformsOn env cells w contents (pure r) f [] := by
  intro ho r' s hm
  obtain ⟨rfl, rfl⟩ := pure_ok hm
  refine ⟨w, rfl, le_refl w, fun p hp => ho p (h hp), ?_⟩
  intro F _ a ha hk
  exact ⟨a, .refl ha, fun p hp => hk p (h hp)⟩

protected theorem bind {m : Gen α} {k : α → Gen β} {f : α → Contents} {g : β → Contents}
    (hm : PerformsOn env cells w contents m f loads)
    (hk : ∀ r (x : Site), w ≤ x → PerformsOn env cells x (f r ++ contents) (k r) g loads') :
    PerformsOn env cells w contents (m >>= k) g (loads ++ loads') := by
  intro ho r s h
  obtain ⟨q, s₁, h₁, h⟩ := bind_ok h
  obtain ⟨x, rfl, hwx, hox, hrun⟩ := hm ho q s₁ h₁
  obtain ⟨y, hy, hxy, hoy, hrun'⟩ :=
    hk q x hwx (hox.append (ho.later (Site.later hwx))) r s h
  refine ⟨y, hy, hwx.trans hxy, hoy, ?_⟩
  intro F hF a ha hknow
  obtain ⟨a₁, hr₁, hk₁⟩ := hrun F (hF.trans (Site.later hxy).completes) a ha hknow
  have hall : a₁.Knows (f q ++ contents) := by
    intro p hp
    rcases List.mem_append.mp hp with hp | hp
    · exact hk₁ p hp
    · exact hr₁.knows ho hknow p hp
  obtain ⟨a₂, hr₂, hk₂⟩ := hrun' F hF a₁ hr₁.stands hall
  exact ⟨a₂, hr₁.trans hr₂ (Site.later hwx), hk₂⟩

/-- A first step that reads no cell. -/
theorem andThen {m : Gen α} {k : α → Gen β} {f : α → Contents} {g : β → Contents}
    (hm : PerformsOn env cells w contents m f [])
    (hk : ∀ r (x : Site), w ≤ x → PerformsOn env cells x (f r ++ contents) (k r) g loads) :
    PerformsOn env cells w contents (m >>= k) g loads := hm.bind hk

/-- A last step that reads no cell. -/
theorem finish {m : Gen α} {k : α → Gen β} {f : α → Contents} {g : β → Contents}
    (hm : PerformsOn env cells w contents m f loads)
    (hk : ∀ r (x : Site), w ≤ x → PerformsOn env cells x (f r ++ contents) (k r) g []) :
    PerformsOn env cells w contents (m >>= k) g loads := by
  have h := hm.bind hk
  rwa [List.append_nil] at h

/-- A first step that only looks something up. -/
theorem look {m : Gen α} {r : α} {k : α → Gen β} {g : β → Contents}
    (hm : m env w.state = .ok r w.state) (h : PerformsOn env cells w contents (k r) g loads) :
    PerformsOn env cells w contents (m >>= k) g loads := by
  intro ho r' s hs
  obtain ⟨q, s₁, h₁, h₂⟩ := bind_ok hs
  rw [hm] at h₁
  cases h₁
  exact h ho r' s h₂

/-- An instruction. -/
protected theorem emit {d : Definition} {content : Content} (hr : w.Supplies contents → w.Reads d)
    (hc : ∀ a : State, a.Knows contents → a.result? cells d = some (content, loads)) :
    PerformsOn env cells w contents (emit d) (fun v => [(v, content)]) loads := by
  intro ho v s h
  obtain ⟨x, rfl, hwx, hhas, rfl, hfn, hblock⟩ := emit_appends (hr ho) v s h
  refine ⟨x, rfl, hwx, by simpa [World.Supplies] using hhas, ?_⟩
  intro F hF a ha hk
  obtain ⟨rest, hrest, hdef, hbody⟩ := Function.exists_next ha.rest hfn hblock hF
  have hresult := hc { a with rest } hk
  refine ⟨_, ⟨.single (step_inst hrest hdef hresult), ⟨ha.block.trans hblock.symm, hbody⟩, rfl, ?_⟩,
    by simp [State.Knows, State.define]⟩
  intro u hu
  have hne : u ≠ w.fn.nextValue := by
    rintro rfl
    exact Nat.lt_irrefl _ hu
  simp [State.define, hne]

end PerformsOn

/-- An arm computes what its code computes, and then control enters the block behind it. -/
theorem Arm.passes {F : Function} {m : Gen α} {x y y' : Site} {z : World} {r : α}
    {f : α → Contents} {a : State} (harm : Arm env F z.block m y y' r)
    (hxy : x.toWorld ≤ y.toWorld) (hm : PerformsOn env cells y contents m f loads)
    (ho : x.Supplies contents) (hz : z.HeadIn F) (ha : Heap.Enters F y.block a)
    (hk : a.Knows contents) :
    ∃ a' a'', Heap.Runs cells F y.toWorld y'.toWorld loads a a' ∧ a'.Knows (f r) ∧
      Heap.Passes cells F y'.toWorld z.block a' a'' := by
  obtain ⟨y'', hstate, -, -, hrun⟩ := hm (ho.later hxy.1) r y'.state harm.runs
  have hfn : y''.fn = y'.fn := World.fn_eq_of_state hstate
  obtain ⟨a₁, hruns, hknows⟩ := hrun F (hfn ▸ harm.back.completes) a (ha.at harm.head) hk
  have hstands := hruns.stands.congr hstate
  obtain ⟨a₂, hpass⟩ := hstands.br harm.back (hz.completes.hasBlock z.inBlock) hz.ne_entry
  exact ⟨a₁, a₂, ⟨hruns.steps, hstands, hruns.loads, hruns.registers⟩, hknows, hpass⟩

end Gen

end TypedLowering
