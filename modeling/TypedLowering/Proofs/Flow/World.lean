import TypedLowering.Proofs.Lowering.Spec
import TypedLowering.Proofs.Ssa.Growth

/-!
States of code generation inside a function whose body is valid so far. A world is such a state with
the availability that shows it; `Later` relates it to the worlds that generation reaches from it. What
can be read in a world can be read in every later one, and the frame is the same but for the block
and the names in scope. A site is a world whose block is still open.
-/
namespace TypedLowering
set_option autoImplicit false
open Ssa Ssa.Function

/-! ## What a frame refers to -/

/-- The operand that a name stands for, or the address of its slot. -/
def Binding.value {τ : Type} : Binding τ → ValueId
  | .constant x _ => x
  | .slot ptr _ _ => ptr

/-- The frame at another block. -/
def Frame.at (fr : Frame) (b : BlockId) : Frame := { fr with block := b }

/-- The frame with other names in scope. -/
def Frame.within (fr : Frame) (scope : Scope String StaticType) : Frame := { fr with scope }

/-- The frame inside of a further loop. -/
def Frame.inLoop (fr : Frame) (t : LoopTarget) : Frame := { fr with loops := t :: fr.loops }

/-- The frame outside of the innermost loop. -/
def Frame.outOfLoop (fr : Frame) : Frame := { fr with loops := fr.loops.tail }

/-- A block that code in block `b` can jump to. -/
structure Ssa.Function.Target (f : Function) (A : Heads) (b c : BlockId) : Prop where
  hasBlock : f.HasBlock c
  ne_entry : c ≠ entry
  phiFree : f.PhiFree c
  heads : ∀ v, A c v → f.Local A b v

/-- Everything that a frame refers to is there at the end of its block. -/
structure Frame.Fits (fr : Frame) (f : Function) (A : Heads) : Prop where
  inBlock : f.HasBlock fr.block
  scope : ∀ name binding, fr.scope.get? name = some binding → f.Known A fr.block binding.value
  this : ∀ o a, fr.this = some o → o.address = some a → f.IsParam a
  loops : ∀ t ∈ fr.loops, f.Target A fr.block t.breakTo ∧ f.Target A fr.block t.continueTo

def Frame.IsTarget (fr : Frame) (b : BlockId) : Prop :=
  ∃ t ∈ fr.loops, b = t.breakTo ∨ b = t.continueTo

theorem Frame.Fits.target {fr : Frame} {f : Function} {A : Heads} (h : fr.Fits f A) {b : BlockId}
    (hb : fr.IsTarget b) : f.Target A fr.block b := by
  obtain ⟨t, ht, rfl | rfl⟩ := hb
  · exact (h.loops t ht).1
  · exact (h.loops t ht).2

namespace Ssa.Function.Grows

variable {f g : Function} {A A' : Heads} {b c b' : BlockId} {T : BlockId → Prop}

theorem known (hg : f.Grows g b T) (hA : ∀ c, f.HasBlock c → A' c = A c) (hc : f.HasBlock c)
    {v : ValueId} (h : f.Known A c v) : g.Known A' c v := by
  rcases h with h | h | h
  · exact .inl (hg.isParam.mpr h)
  · exact .inr (.inl (hg.slots.subset h))
  · exact .inr (.inr (hg.local_of_local hA hc h))

theorem target (hg : f.Grows g b T) (hf : f.Flow A) (hA : ∀ c, f.HasBlock c → A' c = A c)
    (hl : ∀ v, f.Local A b v → g.Local A' b' v) (h : f.Target A b c) : g.Target A' b' c where
  hasBlock := hg.hasBlock h.hasBlock
  ne_entry := h.ne_entry
  phiFree := hg.phiFree hf h.hasBlock h.phiFree
  heads := by
    intro v hv
    rw [hA c h.hasBlock] at hv
    exact hl v (h.heads v hv)

/-- A frame still fits when generation moves on to a block where all is available that was. -/
theorem fits {fr : Frame} (hg : f.Grows g fr.block T) (hf : f.Flow A)
    (hA : ∀ c, f.HasBlock c → A' c = A c) (hb : g.HasBlock b')
    (hl : ∀ v, f.Local A fr.block v → g.Local A' b' v) (h : fr.Fits f A) :
    (fr.at b').Fits g A' where
  inBlock := hb
  scope := by
    intro name binding hn
    rcases h.scope name binding hn with hv | hv | hv
    · exact .inl (hg.isParam.mpr hv)
    · exact .inr (.inl (hg.slots.subset hv))
    · exact .inr (.inr (hl _ hv))
  this := fun o a ho ha => hg.isParam.mpr (h.this o a ho ha)
  loops := fun t ht => ⟨hg.target hf hA hl (h.loops t ht).1, hg.target hf hA hl (h.loops t ht).2⟩

end Ssa.Function.Grows

/-! ## Other functions -/

/-- A function that has no body, or whose body is valid so far. -/
def Ssa.Function.Settled (f : Function) : Prop := f.blocks.size = 0 ∨ ∃ A, f.Flow A

/-- Functions outside `own` are as they were, and those that are new are settled. -/
structure Ssa.Module.Extends (m m' : Module) (own : FunctionId → Prop) : Prop where
  kept : ∀ {id f}, ¬ own id → m.function? id = some f → m'.function? id = some f
  added : ∀ {id f}, ¬ own id → m'.function? id = some f → m.function? id = some f ∨ f.Settled

namespace Ssa.Module.Extends

variable {m m' m'' : Module} {own : FunctionId → Prop}

theorem refl (m : Module) (own : FunctionId → Prop) : m.Extends m own :=
  ⟨fun _ => id, fun _ => .inl⟩

theorem trans (h : m.Extends m' own) (h' : m'.Extends m'' own) : m.Extends m'' own where
  kept := fun hn hf => h'.kept hn (h.kept hn hf)
  added := by
    intro id f hn hf
    rcases h'.added hn hf with hf | hf
    · exact h.added hn hf
    · exact .inr hf

theorem weaken {own' : FunctionId → Prop} (h : m.Extends m' own) (ho : ∀ id, own id → own' id) :
    m.Extends m' own' where
  kept := fun hn => h.kept fun ho' => hn (ho _ ho')
  added := fun hn => h.added fun ho' => hn (ho _ ho')

end Ssa.Module.Extends

theorem Ssa.Module.function?_modifyFunction (m : Module) (id : FunctionId) (g : Function → Function)
    (id' : FunctionId) : (m.modifyFunction id g).function? id' =
      if id = id' then (m.function? id').map g else m.function? id' := by
  obtain ⟨i⟩ := id
  obtain ⟨j⟩ := id'
  simp [modifyFunction, function?, Array.getElem?_modify]

/-- Exporting changes who sees a function and nothing else. -/
theorem Ssa.Module.function?_addExport (m : Module) (name : String) (id id' : FunctionId) :
    (m.addExport name id).function? id' = if id = id' then
      (m.function? id').map fun f => { f with linkage := .exported } else m.function? id' :=
  m.function?_modifyFunction _ _ _

theorem Ssa.Module.extends_modifyFunction (m : Module) (id : FunctionId) (g : Function → Function) :
    m.Extends (m.modifyFunction id g) (· = id) where
  kept := by
    intro id' f hn hf
    rw [m.function?_modifyFunction, if_neg (Ne.symm hn)]
    exact hf
  added := by
    intro id' f hn hf
    rw [m.function?_modifyFunction, if_neg (Ne.symm hn)] at hf
    exact .inl hf

theorem GenState.query_eq {α : Type} (s : GenState) {f : Function} {a : α} {q : Function → α}
    (h : s.unit.module.function? s.frame.function = some f) : s.query a q = q f := by
  unfold GenState.query
  rw [h]

/-! ## Worlds -/

/-- A state of code generation inside a function whose body is valid so far. -/
structure World where
  state : GenState
  fn : Function
  heads : Heads
  current : state.unit.module.function? state.frame.function = some fn
  flow : fn.Flow heads
  fits : state.frame.Fits fn heads

namespace World

abbrev frame (w : World) : Frame := w.state.frame
abbrev module (w : World) : Module := w.state.unit.module
abbrev block (w : World) : BlockId := w.state.frame.block

/-- Available at the end of the current block. -/
abbrev Local (w : World) (v : ValueId) : Prop := w.fn.Local w.heads w.block v

/-- What code in the current block can read. -/
def Has (w : World) (v : ValueId) : Prop := w.fn.Known w.heads w.block v

abbrev Target (w : World) (b : BlockId) : Prop := w.fn.Target w.heads w.block b

abbrev IsOpen (w : World) : Prop := w.fn.exit w.block = none

/-- Generation gets from `w` to `x` in the same function. -/
structure Later (w x : World) : Prop where
  frame : x.frame = (w.frame.at x.block).within x.frame.scope
  others : w.module.Extends x.module (· = w.frame.function)
  grows : w.fn.Grows x.fn w.block w.frame.IsTarget
  heads : ∀ b, w.fn.HasBlock b → x.heads b = w.heads b
  mono : ∀ v, w.Local v → x.Local v
  apart : x.block = w.block ∨ ¬ w.fn.HasBlock x.block

namespace Later

variable {w x y : World}

theorem refl (w : World) : w.Later w where
  frame := rfl
  others := .refl _ _
  grows := .refl _ _ _
  heads := fun _ _ => rfl
  mono := fun _ => id
  apart := .inl rfl

theorem function_eq (h : w.Later x) : x.frame.function = w.frame.function := by
  have he := congrArg Frame.function h.frame
  exact he

theorem loops_eq (h : w.Later x) : x.frame.loops = w.frame.loops := by
  have he := congrArg Frame.loops h.frame
  exact he

theorem ret_eq (h : w.Later x) : x.frame.returnType = w.frame.returnType := by
  have he := congrArg Frame.returnType h.frame
  exact he

theorem isTarget_iff (h : w.Later x) {b : BlockId} : x.frame.IsTarget b ↔ w.frame.IsTarget b := by
  unfold Frame.IsTarget
  rw [h.loops_eq]

/-- Composition, where the second part may jump to more blocks as long as they are new. -/
theorem grows_trans (h : w.Later x) {g : Function} {T : BlockId → Prop}
    (hg : x.fn.Grows g x.block T) (hT : ∀ c, w.fn.HasBlock c → T c → w.frame.IsTarget c) :
    w.fn.Grows g w.block w.frame.IsTarget :=
  h.grows.trans w.fits.inBlock h.apart hg hT

theorem apart_trans (h : w.Later x) {b : BlockId} (hb : b = x.block ∨ ¬ x.fn.HasBlock b) :
    b = w.block ∨ ¬ w.fn.HasBlock b := by
  rcases hb with rfl | hb
  · exact h.apart
  · exact .inr fun hw => hb (h.grows.hasBlock hw)

theorem trans (h : w.Later x) (h' : x.Later y) : w.Later y where
  frame := by
    refine h'.frame.trans ?_
    rw [h.frame]
    rfl
  others := h.others.trans (h'.others.weaken fun id hid => hid.trans h.function_eq)
  grows := h.grows_trans h'.grows fun _ _ => h.isTarget_iff.mp
  heads := fun b hb => (h'.heads b (h.grows.hasBlock hb)).trans (h.heads b hb)
  mono := fun v hv => h'.mono v (h.mono v hv)
  apart := h.apart_trans h'.apart

theorem has (h : w.Later x) {v : ValueId} (hv : w.Has v) : x.Has v := by
  rcases hv with hv | hv | hv
  · exact .inl (h.grows.isParam.mpr hv)
  · exact .inr (.inl (h.grows.slots.subset hv))
  · exact .inr (.inr (h.mono v hv))

/-- What can be read at the end of some block still can. -/
theorem known (h : w.Later x) {b : BlockId} (hb : w.fn.HasBlock b) {v : ValueId}
    (hv : w.fn.Known w.heads b v) : x.fn.Known x.heads b v :=
  h.grows.known h.heads hb hv

/-- No edge to an old block is added, unless it belongs to an enclosing loop. -/
theorem edge_iff (h : w.Later x) {b c : BlockId} (hb : w.fn.HasBlock b)
    (ht : ¬ w.frame.IsTarget b) : x.fn.Edge c b ↔ w.fn.Edge c b := by
  constructor
  · intro he
    rcases h.grows.edges hb he with he | he
    · exact he
    · exact (ht he).elim
  · exact h.grows.edge

end Later

/-- The function of a world is the one that its state has. -/
theorem fn_eq_of_state {w x : World} (h : w.state = x.state) : w.fn = x.fn := by
  have hx := x.current
  rw [← h] at hx
  exact Option.some.inj (w.current.symm.trans hx)

theorem inBlock (w : World) : w.fn.HasBlock w.block := w.fits.inBlock

theorem not_isTarget (w : World) {b : BlockId} (hb : ¬ w.fn.HasBlock b) : ¬ w.frame.IsTarget b :=
  fun h => hb (w.fits.target h).hasBlock

theorem ne_entry (w : World) {b : BlockId} (hb : ¬ w.fn.HasBlock b) : b ≠ entry := by
  rintro rfl
  exact hb w.flow.shaped.entry

/-- The worlds after `w`: a state whose frame has moved on, whose function has grown from that of
`w`, and where everything is available that was. -/
theorem exists_later (w : World) {s : GenState} {g : Function} {A : Heads}
    (hframe : s.frame = w.frame.at s.frame.block)
    (hcurrent : s.unit.module.function? w.frame.function = some g) (hflow : g.Flow A)
    (hothers : w.module.Extends s.unit.module (· = w.frame.function))
    (hgrows : w.fn.Grows g w.block w.frame.IsTarget)
    (hheads : ∀ b, w.fn.HasBlock b → A b = w.heads b) (hb : g.HasBlock s.frame.block)
    (hmono : ∀ v, w.Local v → g.Local A s.frame.block v)
    (hapart : s.frame.block = w.block ∨ ¬ w.fn.HasBlock s.frame.block) :
    ∃ x : World, x.state = s ∧ x.fn = g ∧ x.heads = A ∧ w.Later x ∧
      x.frame.scope = w.frame.scope := by
  have hscope : s.frame.scope = w.frame.scope := by
    have he := congrArg Frame.scope hframe
    exact he
  have hfits : s.frame.Fits g A := by
    rw [hframe]
    exact hgrows.fits w.flow hheads hb hmono w.fits
  have hfn : s.frame.function = w.frame.function := by
    have he := congrArg Frame.function hframe
    exact he
  refine ⟨⟨s, g, A, by rw [hfn]; exact hcurrent, hflow, hfits⟩, rfl, rfl, rfl, ?_, hscope⟩
  exact {
    frame := by
      show s.frame = (w.frame.at s.frame.block).within s.frame.scope
      rw [hscope]
      exact hframe
    others := hothers
    grows := hgrows
    heads := hheads
    mono := hmono
    apart := hapart }

/-- The worlds after `w` where only the function has changed since `x`. -/
theorem exists_map {w x : World} (h : w.Later x) (hscope : x.frame.scope = w.frame.scope)
    {t : Function → Function} {A : Heads} (hflow : (t x.fn).Flow A)
    (hgrows : w.fn.Grows (t x.fn) w.block w.frame.IsTarget)
    (hheads : ∀ b, w.fn.HasBlock b → A b = w.heads b) (hb : (t x.fn).HasBlock x.block)
    (hmono : ∀ v, w.Local v → (t x.fn).Local A x.block v) :
    ∃ y : World, y.state = x.state.mapFunction t ∧ y.fn = t x.fn ∧ y.heads = A ∧ w.Later y ∧
      y.frame.scope = w.frame.scope := by
  refine w.exists_later ?_ ?_ hflow ?_ hgrows hheads hb hmono h.apart
  · show x.frame = w.frame.at x.block
    rw [h.frame, hscope]
    rfl
  · show (x.module.modifyFunction x.frame.function t).function? w.frame.function = _
    rw [h.function_eq, Module.function?_modifyFunction, if_pos rfl, ← h.function_eq, x.current]
    rfl
  · have he := x.module.extends_modifyFunction x.frame.function t
    exact h.others.trans (he.weaken fun id hid => hid.trans h.function_eq)

/-- Generation gets from one world to the other, and no name enters or leaves the scope. -/
instance : CodeWorld World where
  state := World.state
  le := fun w x => w.Later x ∧ x.frame.scope = w.frame.scope
  le_refl := fun w => ⟨.refl w, rfl⟩
  le_trans := fun _ _ _ h h' => ⟨h.1.trans h'.1, h'.2.trans h.2⟩

@[simp] theorem state_eq (w : World) : CodeWorld.state w = w.state := rfl

theorem later {w x : World} (h : w ≤ x) : w.Later x := h.1

theorem scope_eq {w x : World} (h : w ≤ x) : x.frame.scope = w.frame.scope := h.2

end World

/-! ## Sites -/

/-- A world whose block is open. -/
structure Site extends World where
  isOpen : toWorld.IsOpen

namespace Site

instance : CodeWorld Site where
  state := fun w => w.toWorld.state
  le := fun w x => w.toWorld ≤ x.toWorld
  le_refl := fun w => le_refl w.toWorld
  le_trans := fun _ _ _ h h' => le_trans (α := World) h h'

@[simp] theorem state_eq (w : Site) : CodeWorld.state w = w.toWorld.state := rfl

theorem later {w x : Site} (h : w ≤ x) : w.toWorld.Later x.toWorld := h.1

theorem size_values {w x : Site} (h : w ≤ x) : w.fn.values.size ≤ x.fn.values.size :=
  (later h).grows.size_values

@[grind →] theorem has {w x : Site} (h : w ≤ x) {v : ValueId} (hv : w.Has v) : x.Has v :=
  (later h).has hv

end Site

/-! ## Outside of the function -/

/-- A state of code generation of which the current function plays no part. -/
structure Outside where
  state : GenState

namespace Outside

/-- The frame stays, and functions are only added. -/
instance : CodeWorld Outside where
  state := Outside.state
  le := fun w x => x.state.frame = w.state.frame ∧
    w.state.unit.module.Extends x.state.unit.module fun _ => False
  le_refl := fun _ => ⟨rfl, .refl _ _⟩
  le_trans := fun _ _ _ h h' => ⟨h'.1.trans h.1, h.2.trans h'.2⟩

end Outside

theorem Site.exists_outside (w : Site) {x : Outside} (h : (⟨w.state⟩ : Outside) ≤ x) :
    ∃ y : Site, y.state = x.state ∧ w ≤ y := by
  obtain ⟨hframe, hext⟩ := h
  have hblock : x.state.frame.block = w.block := congrArg Frame.block hframe
  obtain ⟨y, hy, hfn, hA, hl, hs⟩ := w.toWorld.exists_later (s := x.state) (g := w.fn)
    (A := w.heads) (by rw [hframe]; rfl) (hext.kept id w.current) w.flow
    (hext.weaken fun _ => False.elim) (.refl _ _ _) (fun _ _ => rfl) (by rw [hblock]; exact w.inBlock)
    (fun v hv => by rw [hblock]; exact hv) (.inl hblock)
  have hopen : y.IsOpen := by
    show y.fn.exit y.state.frame.block = none
    rw [hfn, hy, hblock]
    exact w.isOpen
  exact ⟨⟨y, hopen⟩, hy, hl, hs⟩

/-- A step that does not touch the current function. -/
theorem Gen.Spec.outside {α : Type} {env : Env} {w : Site} {m : Gen α} {Q : α → Outside → Prop}
    (h : Gen.Spec env (⟨w.state⟩ : Outside) m Q) :
    Gen.Spec env w m fun a x => Q a ⟨x.state⟩ := by
  intro a s hm
  obtain ⟨x, rfl, hwx, hq⟩ := h a s hm
  obtain ⟨y, hy, hwy⟩ := w.exists_outside hwx
  refine ⟨y, hy, hwy, ?_⟩
  show Q a ⟨y.state⟩
  rw [hy]
  exact hq

end TypedLowering
