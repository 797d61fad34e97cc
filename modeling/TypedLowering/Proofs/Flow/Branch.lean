import TypedLowering.Lowering.Statement
import TypedLowering.Proofs.Flow.Emission

/-!
Branches. Code that branches is followed from a base world: the blocks added since then have at
their heads what was available in the base, so that control may pass to them from every later block
and generation may go on in any of them.
-/
namespace TypedLowering
set_option autoImplicit false
open Ssa Ssa.Function

namespace World

/-- A block added after `w`, with what was available in `w` at its head. -/
structure Landing (w x : World) (b : BlockId) : Prop where
  hasBlock : x.fn.HasBlock b
  isNew : ¬ w.fn.HasBlock b
  phiFree : x.fn.PhiFree b
  heads : x.heads b = w.Local

/-- A landing that is still empty and that generation has not gone to. -/
structure Vacant (w x : World) (b : BlockId) : Prop extends w.Landing x b where
  ne : b ≠ x.block
  empty : x.fn.body b = []
  unended : x.fn.exit b = none

/-- `y` is `x` with its block ended. -/
structure Ends (x y : World) (t : Terminator) : Prop where
  fn : y.fn = x.fn.terminate x.block t
  heads : y.heads = x.heads
  block : y.block = x.block

/-- `y` stands where `x` stands, in the same block behind the same code. -/
structure Stays (x y : World) : Prop where
  block : y.block = x.block
  body : y.fn.body y.block = x.fn.body x.block

/-- `y` is `x` at another block. -/
structure Moves (x y : World) (b : BlockId) : Prop where
  fn : y.fn = x.fn
  heads : y.heads = x.heads
  block : y.block = b

variable {w x y : World} {b c : BlockId} {t : Terminator}

theorem completes_refl (x : World) : x.fn.Completes x.fn := .refl x.flow

theorem Later.completes (h : w.Later x) : x.fn.Completes w.fn := .of_grows h.grows x.flow

theorem Ends.completes {x : Site} (h : x.toWorld.Ends y t) : y.fn.Completes x.fn := by
  rw [h.fn]
  exact .of_terminate x.flow x.inBlock x.isOpen t

theorem Moves.completes (h : x.Moves y b) : y.fn.Completes x.fn := by
  rw [h.fn]
  exact x.completes_refl

theorem Later.isLocal (h : w.Later x) {v : ValueId} (hv : w.Local v) : x.Local v := h.mono v hv

namespace Landing

theorem later (h : w.Landing x b) (hxy : x.Later y) : w.Landing y b where
  hasBlock := hxy.grows.hasBlock h.hasBlock
  isNew := h.isNew
  phiFree := hxy.grows.phiFree x.flow h.hasBlock h.phiFree
  heads := (hxy.heads b h.hasBlock).trans h.heads

theorem ends (h : w.Landing x b) (he : x.Ends y t) : w.Landing y b where
  hasBlock := by
    rw [he.fn, hasBlock_terminate]
    exact h.hasBlock
  isNew := h.isNew
  phiFree := by
    intro v hv d hd
    rw [he.fn, body_terminate] at hv
    rw [he.fn] at hd
    exact h.phiFree v hv d hd
  heads := by
    rw [he.heads]
    exact h.heads

theorem moves (h : w.Landing x b) (hm : x.Moves y c) : w.Landing y b where
  hasBlock := by
    rw [hm.fn]
    exact h.hasBlock
  isNew := h.isNew
  phiFree := by
    rw [hm.fn]
    exact h.phiFree
  heads := by
    rw [hm.heads]
    exact h.heads

/-- A block that is added later is another one. -/
theorem ne_of_added (h : w.Landing x b) (hc : ¬ x.fn.HasBlock c) : c ≠ b := by
  rintro rfl
  exact hc h.hasBlock

theorem target (h : w.Landing x b) (hx : w ≤ x) : x.Target b where
  hasBlock := h.hasBlock
  ne_entry := w.ne_entry h.isNew
  phiFree := h.phiFree
  heads := by
    intro v hv
    rw [h.heads] at hv
    exact hx.1.isLocal hv

end Landing

namespace Vacant

theorem later (h : w.Vacant x b) (hxy : x.Later y) : w.Vacant y b where
  toLanding := h.toLanding.later hxy
  ne := by
    rcases hxy.apart with he | hn
    · rw [he]
      exact h.ne
    · rintro rfl
      exact hn h.hasBlock
  empty := (hxy.grows.kept h.hasBlock h.ne).1.trans h.empty
  unended := (hxy.grows.kept h.hasBlock h.ne).2.trans h.unended

theorem ends (h : w.Vacant x b) (he : x.Ends y t) : w.Vacant y b where
  toLanding := h.toLanding.ends he
  ne := by
    rw [he.block]
    exact h.ne
  empty := by
    rw [he.fn, body_terminate]
    exact h.empty
  unended := by
    rw [he.fn, exit_terminate t x.inBlock, if_neg h.ne]
    exact h.unended

theorem moves (h : w.Vacant x b) (hm : x.Moves y c) (hne : b ≠ c) : w.Vacant y b where
  toLanding := h.toLanding.moves hm
  ne := by
    rw [hm.block]
    exact hne
  empty := by
    rw [hm.fn]
    exact h.empty
  unended := by
    rw [hm.fn]
    exact h.unended

end Vacant

/-- What was landed on or vacant in `x` is so in `y`, and the code of `x` is there. -/
structure Keeps (w x y : World) : Prop where
  completes : y.fn.Completes x.fn
  landing : ∀ {c}, w.Landing x c → w.Landing y c
  vacant : ∀ {c}, w.Vacant x c → w.Vacant y c

namespace Keeps

variable {z : World}

theorem refl (w x : World) : w.Keeps x x := ⟨x.completes_refl, id, id⟩

theorem trans (h : w.Keeps x y) (h' : w.Keeps y z) : w.Keeps x z where
  completes := h'.completes.trans h.completes
  landing := fun hc => h'.landing (h.landing hc)
  vacant := fun hc => h'.vacant (h.vacant hc)

theorem of_later (h : x.Later y) : w.Keeps x y :=
  ⟨h.completes, fun hc => hc.later h, fun hc => hc.later h⟩

theorem of_ends {x : Site} (h : x.toWorld.Ends y t) : w.Keeps x.toWorld y :=
  ⟨h.completes, fun hc => hc.ends h, fun hc => hc.ends h⟩

theorem of_same (h : x.Moves y x.block) : w.Keeps x y :=
  ⟨h.completes, fun hc => hc.moves h, fun hc => hc.moves h hc.ne⟩

end Keeps

theorem Ends.known (h : x.Ends y t) {v : ValueId} (hv : x.fn.Known x.heads b v) :
    y.fn.Known y.heads b v := by
  rw [h.fn, h.heads]
  exact Flow.known_terminate hv

theorem Ends.hasBlock (h : x.Ends y t) (hb : x.fn.HasBlock b) : y.fn.HasBlock b := by
  rw [h.fn, hasBlock_terminate]
  exact hb

theorem Moves.known (h : x.Moves y c) {v : ValueId} (hv : x.fn.Known x.heads b v) :
    y.fn.Known y.heads b v := by
  rw [h.fn, h.heads]
  exact hv

theorem Moves.hasBlock (h : x.Moves y c) (hb : x.fn.HasBlock b) : y.fn.HasBlock b := by
  rw [h.fn]
  exact hb

/-- Generation that has reached an added block stays in added blocks. -/
theorem not_hasBlock_of_later (hx : w ≤ x) (hn : ¬ w.fn.HasBlock x.block) (hy : x.Later y) :
    ¬ w.fn.HasBlock y.block := by
  rcases hy.apart with he | hb
  · rw [he]
    exact hn
  · exact fun h => hb (hx.1.grows.hasBlock h)

/-- The blocks that control can come to `b` from. -/
def LedToFrom (x : World) (b : BlockId) (sources : List BlockId) : Prop :=
  ∀ c, c ∈ sources ↔ x.fn.Edge c b

namespace LedToFrom

variable {sources : List BlockId}

theorem later (h : x.LedToFrom b sources) (hx : w ≤ x) (hb : w.Landing x b) (hxy : x.Later y) :
    y.LedToFrom b sources := by
  intro c
  have ht : ¬ x.frame.IsTarget b := fun ht => w.not_isTarget hb.isNew (hx.1.isTarget_iff.mp ht)
  exact (h c).trans (hxy.edge_iff hb.hasBlock ht).symm

theorem moves (h : x.LedToFrom b sources) (hm : x.Moves y c) : y.LedToFrom b sources := by
  intro c'
  rw [hm.fn]
  exact h c'

theorem ends_past {x : Site} (h : x.LedToFrom b sources) (he : x.toWorld.Ends y t)
    (hb : b ∉ t.successors) : y.LedToFrom b sources := by
  intro c
  rw [he.fn, Flow.edge_terminate x.inBlock x.isOpen]
  simp [h c, hb]

theorem ends_at {x : Site} (h : x.LedToFrom b sources) (he : x.toWorld.Ends y t)
    (hb : b ∈ t.successors) : y.LedToFrom b (sources ++ [x.block]) := by
  intro c
  rw [he.fn, Flow.edge_terminate x.inBlock x.isOpen]
  simp [h c, hb]

end LedToFrom

/-! ## Code in a completed function -/

/-- In `F` the block of `x` ends with `t`, right behind the code of `x`. -/
structure ClosedIn (x : World) (F : Function) (t : Terminator) : Prop where
  completes : F.Completes x.fn
  exit : F.exit x.block = some t
  body : F.body x.block = x.fn.body x.block

/-- In `F` a block other than the first begins where `x` stands. -/
structure HeadIn (x : World) (F : Function) : Prop where
  completes : F.Completes x.fn
  empty : x.fn.body x.block = []
  ne_entry : x.block ≠ entry

variable {F g : Function}

theorem ClosedIn.completed (h : x.ClosedIn g t) (hF : F.Completes g) : x.ClosedIn F t where
  completes := hF.trans h.completes
  exit := (hF.exit h.exit).2
  body := (hF.exit h.exit).1.trans h.body

theorem HeadIn.completed (h : x.HeadIn g) (hF : F.Completes g) : x.HeadIn F where
  completes := hF.trans h.completes
  empty := h.empty
  ne_entry := h.ne_entry

theorem Ends.closedIn {x : Site} (h : x.toWorld.Ends y t) : x.toWorld.ClosedIn y.fn t where
  completes := h.completes
  exit := by rw [h.fn, exit_terminate t x.inBlock, if_pos rfl]
  body := by rw [h.fn, body_terminate]

theorem Stays.trans {z : World} (h : x.Stays y) (h' : y.Stays z) : x.Stays z :=
  ⟨h'.block.trans h.block, h'.body.trans h.body⟩

theorem HeadIn.enterable (h : x.HeadIn F) : F.HasBlock x.block ∧ x.block ≠ entry :=
  ⟨h.completes.hasBlock x.inBlock, h.ne_entry⟩

theorem Moves.stays (h : x.Moves y x.block) : x.Stays y := ⟨h.block, by rw [h.fn, h.block]⟩

theorem HeadIn.moves (h : x.HeadIn F) (hm : x.Moves y x.block) : y.HeadIn F where
  completes := by
    rw [hm.fn]
    exact h.completes
  empty := hm.stays.body.trans h.empty
  ne_entry := by
    rw [hm.block]
    exact h.ne_entry

theorem ClosedIn.stays (h : y.ClosedIn F t) (hs : x.Stays y) (hc : y.fn.Completes x.fn) :
    x.ClosedIn F t where
  completes := h.completes.trans hc
  exit := by
    rw [← hs.block]
    exact h.exit
  body := by
    rw [← hs.body, ← hs.block]
    exact h.body

/-- `y` is another place in the same function, with the names of `w` and all that `w` has. -/
structure Inherits (w y : World) : Prop where
  scope : y.frame.scope = w.frame.scope
  ret : y.frame.returnType = w.frame.returnType
  has : ∀ {v}, w.Has v → y.Has v

theorem Inherits.of_le (h : w ≤ x) : w.Inherits x where
  scope := h.2
  ret := h.1.ret_eq
  has := h.1.has

theorem Inherits.trans (h : w.Inherits x) (h' : x.Inherits y) : w.Inherits y where
  scope := h'.scope.trans h.scope
  ret := h'.ret.trans h.ret
  has := fun hv => h'.has (h.has hv)

/-- `y` is `x` behind a phi. -/
structure Joins (x y : World) (v : ValueId) (incoming : List (ValueId × BlockId)) : Prop where
  value : v = x.fn.nextValue
  fn : ∃ t, y.fn = x.fn.append x.block (.phi t incoming)
  block : y.block = x.block

theorem Joins.completes {x : Site} {v : ValueId} {incoming : List (ValueId × BlockId)}
    (h : x.toWorld.Joins y v incoming) : y.fn.Completes x.fn := by
  obtain ⟨t, ht⟩ := h.fn
  rw [ht]
  exact .of_append x.flow x.inBlock x.isOpen _

theorem Vacant.headIn (h : w.Vacant x b) (hm : x.Moves y b) : y.HeadIn y.fn where
  completes := y.completes_refl
  empty := by
    rw [hm.block, hm.fn]
    exact h.empty
  ne_entry := by
    rw [hm.block]
    exact w.ne_entry h.isNew

end World

namespace Gen

variable {α β : Type} {env : Env} {w : World}

/-- The code of `m` as a block or more of its own: it begins at `y`, ends at `y'` with the result
`r`, and then control passes to `target`. -/
structure Arm (env : Env) (F : Function) (target : BlockId) (m : Gen α) (y y' : Site) (r : α) :
    Prop where
  head : y.toWorld.HeadIn F
  runs : m env y.state = .ok r y'.state
  back : y'.toWorld.ClosedIn F (.br target)

theorem Arm.completed {F g : Function} {target : BlockId} {m : Gen α} {y y' : Site} {r : α}
    (h : Arm env g target m y y' r) (hF : F.Completes g) : Arm env F target m y y' r :=
  ⟨h.head.completed hF, h.runs, h.back.completed hF⟩

/-! ## Steps -/

/-- What a site leads to when it is followed from a base. -/
theorem Onward.of_site {x : Site} {m : Gen α} {Q : α → Site → Prop} (hx : w ≤ x.toWorld)
    (h : Spec env x m Q) :
    Onward env w x.toWorld m fun a y => ∃ z : Site, z.toWorld = y ∧ x ≤ z ∧ Q a z := by
  intro a s hm
  obtain ⟨z, hz, hxz, hq⟩ := h a s hm
  exact ⟨z.toWorld, hz, hx.trans hxz, z, rfl, hxz, hq⟩

theorem Onward.bind_site {x : Site} {m : Gen α} {f : α → Gen β} {Q : α → Site → Prop}
    {R : β → World → Prop} (hx : w ≤ x.toWorld) (h : Spec env x m Q)
    (hf : ∀ a (y : Site), x ≤ y → Q a y → Onward env w y.toWorld (f a) R) :
    Onward env w x.toWorld (m >>= f) R := by
  refine .bind (.of_site hx h) ?_
  rintro a _ - ⟨z, rfl, hxz, hq⟩
  exact hf a z hxz hq

theorem appendBlock_world {x : World} {word : String} :
    Spec env x (appendBlock word) fun b y => x.Vacant y b ∧ y.LedToFrom b [] ∧
      x.Stays y ∧ y.Local = x.Local ∧ (x.IsOpen → y.IsOpen) := by
  intro b s h
  cases h
  have hlocal (v : ValueId) :
      (x.fn.addBlock word).Local (x.heads.set x.fn.nextBlock x.Local) x.block v ↔ x.Local v := by
    unfold World.Local Function.Local
    rw [Heads.set_of_ne (Flow.ne_nextBlock x.inBlock), body_addBlock]
  obtain ⟨y, hy, hfn, hA, hl, hs⟩ := World.exists_map (t := fun f => f.addBlock word)
    (.refl x) rfl (x.flow.addBlock word (b := x.block)) (grows_addBlock x.flow word)
    (fun b hb => Heads.set_of_ne (Flow.ne_nextBlock hb)) ((hasBlock_addBlock word).mpr (.inl x.inBlock))
    (fun v hv => (hlocal v).mpr hv)
  have hblock : y.block = x.block := congrArg (·.frame.block) hy
  have hopen (ho : x.IsOpen) : y.IsOpen := by
    show y.fn.exit y.block = none
    rw [hfn, hblock, exit_addBlock]
    exact ho
  have hnext : (CodeWorld.state x).query .absent nextBlock = x.fn.nextBlock :=
    x.state.query_eq x.current
  rw [hnext]
  have hbody : y.fn.body x.fn.nextBlock = [] := by
    rw [hfn, body_addBlock]
    exact body_of_not_hasBlock (x.fn.not_hasBlock_nextBlock)
  refine ⟨y, hy, ⟨hl, hs⟩, ?_, ?_, ⟨hblock, by rw [hfn, hblock, body_addBlock]⟩, ?_, hopen⟩
  · exact {
      hasBlock := by
        show y.fn.HasBlock _
        rw [hfn]
        exact (hasBlock_addBlock word).mpr (.inr rfl)
      isNew := x.fn.not_hasBlock_nextBlock
      phiFree := by simp [PhiFree, hbody]
      heads := by
        show y.heads _ = _
        rw [hA, Heads.set_self]
      ne := by
        show _ ≠ y.block
        rw [hblock]
        exact (Flow.ne_nextBlock x.inBlock).symm
      empty := hbody
      unended := by
        show y.fn.exit _ = none
        rw [hfn, exit_addBlock]
        exact exit_of_not_hasBlock (x.fn.not_hasBlock_nextBlock) }
  · intro c
    simp only [List.not_mem_nil, false_iff]
    rintro ⟨t, ht, hc⟩
    rw [hfn, exit_addBlock] at ht
    exact x.fn.not_hasBlock_nextBlock ((x.flow.leave ht).2 _ hc).1
  · funext v
    show y.fn.Local y.heads y.block v = _
    rw [hfn, hA, hblock]
    exact propext (hlocal v)

theorem appendBlock_spec {x : Site} {word : String} :
    Spec env x (appendBlock word) fun b y => x.Vacant y.toWorld b ∧ y.LedToFrom b [] ∧
      x.toWorld.Stays y.toWorld ∧ y.Local = x.Local := by
  intro b s h
  obtain ⟨y, hy, hxy, hv, hf, hb, hl, hopen⟩ := appendBlock_world (x := x.toWorld) b s h
  exact ⟨⟨y, hopen x.isOpen⟩, hy, hxy, hv, hf, hb, hl⟩

/-- Ends the current block with a jump to landings or to enclosing loops. -/
theorem terminate_onward {x : Site} {t : Terminator} (hx : w ≤ x.toWorld)
    (hu : ∀ u ∈ t.uses, x.Has u)
    (ht : ∀ c ∈ t.successors, w.Landing x.toWorld c ∨ w.frame.IsTarget c) :
    Onward env w x.toWorld (terminate t) fun _ y => x.toWorld.Ends y t := by
  intro a s h
  rw [World.state_eq, terminate, requireOpen_bind x] at h
  cases h
  have htarget (c : BlockId) (hc : c ∈ t.successors) : x.Target c := by
    rcases ht c hc with h | h
    · exact h.target hx
    · exact x.fits.target (hx.1.isTarget_iff.mpr h)
  have hgrows : w.fn.Grows (x.fn.terminate x.block t) w.block w.frame.IsTarget := by
    refine hx.1.grows_trans (grows_terminate (T := (· ∈ t.successors)) x.inBlock x.isOpen
      fun c hc _ => hc) ?_
    intro c hc hs
    rcases ht c hs with h | h
    · exact (h.isNew hc).elim
    · exact h
  have hflow : (x.fn.terminate x.block t).Flow x.heads := by
    refine x.flow.terminate x.inBlock x.isOpen hu fun c hc => ?_
    have h := htarget c hc
    exact ⟨h.hasBlock, h.ne_entry, h.phiFree, h.heads⟩
  obtain ⟨y, hy, hfn, hA, hl, hs⟩ := World.exists_map (t := fun f => f.terminate x.block t)
    hx.1 hx.2 hflow hgrows hx.1.heads (by simpa using x.inBlock) (fun v hv => by
      unfold Function.Local
      rw [body_terminate]
      exact hx.1.mono v hv)
  exact ⟨y, hy, ⟨hl, hs⟩, hfn, hA, congrArg (·.frame.block) hy⟩

/-- Goes on in a landing that is still empty. -/
theorem positionAt_onward {x : World} {b : BlockId} (hx : w ≤ x) (hb : w.Vacant x b) :
    Onward env w x (positionAt b) fun _ y => x.Moves y b ∧ y.IsOpen := by
  intro a s h
  cases h
  obtain ⟨y, hy, hfn, hA, hl, hs⟩ := w.exists_later
    (s := { x.state with frame := { x.state.frame with block := b } })
    (by
      show Frame.at x.frame b = w.frame.at b
      rw [hx.1.frame, hx.2]
      rfl)
    (by
      show x.module.function? w.frame.function = _
      rw [← hx.1.function_eq]
      exact x.current)
    x.flow hx.1.others hx.1.grows hx.1.heads hb.hasBlock
    (fun v hv => .inl (by rw [hb.heads]; exact hv)) (.inr hb.isNew)
  have hblock : y.block = b := congrArg (·.frame.block) hy
  refine ⟨y, hy, ⟨hl, hs⟩, ⟨hfn, hA, hblock⟩, ?_⟩
  show y.fn.exit y.block = none
  rw [hfn, hblock]
  exact hb.unended

/-- A phi in a block added since the base, with an arm for each block that leads there. -/
theorem phi_onward {x : Site} {t : Ty} {incoming : List (ValueId × BlockId)} (hx : w ≤ x.toWorld)
    (hn : ¬ w.fn.HasBlock x.block) (ha : ∀ arm ∈ incoming, x.fn.Known x.heads arm.2 arm.1)
    (hp : (incoming.map (·.2)).Nodup) (he : x.LedToFrom x.block (incoming.map (·.2))) :
    Onward env w x.toWorld (emit (.phi t incoming)) fun v y =>
      ∃ z : Site, z.toWorld = y ∧ z.Has v ∧ x.toWorld.Joins z.toWorld v incoming := by
  intro v s h
  rw [World.state_eq, emit, requireOpen_bind x] at h
  cases h
  have hflow : (x.fn.append x.block (.phi t incoming)).Flow x.heads := by
    refine x.flow.append x.inBlock (by simp [Definition.phi, Op.uses]) ha ?_
    intro inc hi
    cases hi
    exact ⟨hp, he⟩
  obtain ⟨y, hy, hfn, hA, hl, hs⟩ := World.exists_map
    (t := fun f => f.append x.block (.phi t incoming)) hx.1 hx.2 hflow
    (hx.1.grows.append_added x.flow.shaped w.inBlock x.inBlock hn _) hx.1.heads
    (by simpa using x.inBlock) (fun v hv => x.flow.local_append x.inBlock (hx.1.mono v hv))
  have hblock : y.block = x.block := congrArg (·.frame.block) hy
  have hopen : y.IsOpen := by
    show y.fn.exit y.block = none
    rw [hfn, hblock, exit_append]
    exact x.isOpen
  have hnext : x.state.query .absent nextValue = x.fn.nextValue :=
    x.state.query_eq x.current
  refine ⟨y, hy, ⟨hl, hs⟩, ⟨y, hopen⟩, rfl, ?_, ⟨hnext, ⟨t, hfn⟩, hblock⟩⟩
  show y.fn.Known y.heads y.block _
  rw [hfn, hA, hblock, hnext]
  exact x.flow.known_append_next x.inBlock

/-! ## Steps in sequence -/

/-- Adds a block while nothing has become available since the base. -/
theorem Onward.bind_block {x : Site} {word : String} {f : BlockId → Gen β} {R : β → World → Prop}
    (hx : w ≤ x.toWorld) (hl : x.Local = w.Local)
    (hf : ∀ b (y : Site), x ≤ y → x.toWorld.Stays y.toWorld → y.Local = w.Local →
      w.Vacant y.toWorld b →
      ¬ x.fn.HasBlock b → y.LedToFrom b [] → Onward env w y.toWorld (f b) R) :
    Onward env w x.toWorld (appendBlock word >>= f) R := by
  refine .bind_site hx appendBlock_spec fun b y hxy hq => ?_
  obtain ⟨hv, he, hb, hly⟩ := hq
  refine hf b y hxy hb (hly.trans hl) ?_ hv.isNew he
  exact {
    hasBlock := hv.hasBlock
    isNew := fun h => hv.isNew (hx.1.grows.hasBlock h)
    phiFree := hv.phiFree
    heads := hv.heads.trans hl
    ne := hv.ne
    empty := hv.empty
    unended := hv.unended }

/-- Goes on in a landing that is still empty. -/
theorem Onward.bind_position {x : World} {b : BlockId} {f : Unit → Gen β} {R : β → World → Prop}
    (hx : w ≤ x) (hb : w.Vacant x b)
    (hf : ∀ y : Site, w ≤ y.toWorld → x.Moves y.toWorld b → Onward env w y.toWorld (f ()) R) :
    Onward env w x (positionAt b >>= f) R := by
  refine .bind (positionAt_onward hx hb) ?_
  rintro _ y hwy ⟨hm, hopen⟩
  exact hf ⟨y, hopen⟩ hwy hm

/-- Jumps to a landing that is still empty, and goes on there. -/
theorem Onward.bind_meet {x : Site} {b : BlockId} {f : Unit → Gen β} {R : β → World → Prop}
    {sources : List BlockId} (hx : w ≤ x.toWorld) (hb : w.Vacant x.toWorld b)
    (he : x.LedToFrom b sources)
    (hf : ∀ y : Site, w ≤ y.toWorld → y.block = b → y.LedToFrom b (sources ++ [x.block]) →
      (∀ c v, x.fn.Known x.heads c v → y.fn.Known y.heads c v) →
      x.toWorld.ClosedIn y.fn (.br b) → y.toWorld.HeadIn y.fn →
      Onward env w y.toWorld (f ()) R) :
    Onward env w x.toWorld (terminate (.br b) >>= fun _ => positionAt b >>= f) R := by
  refine .bind (terminate_onward hx (by simp [Terminator.uses]) ?_) fun _ y hy hend => ?_
  · simpa [Terminator.successors] using .inl hb.toLanding
  · refine .bind_position hy (hb.ends hend) fun z hz hm => ?_
    refine hf z hz hm.block ?_ (fun c v hv => hm.known (hend.known hv)) ?_ ?_
    · exact (he.ends_at hend (by simp [Terminator.successors])).moves hm
    · exact hend.closedIn.completed hm.completes
    · exact (hb.ends hend).headIn hm

theorem Onward.end_site {x : Site} {m : Gen α} {Q : α → Site → Prop} (hx : w ≤ x.toWorld)
    (h : Spec env x m Q) :
    Onward env w x.toWorld m fun a y => ∃ z : Site, z.toWorld = y ∧ Q a z := by
  intro a s hm
  obtain ⟨z, hz, hxz, hq⟩ := h a s hm
  exact ⟨z.toWorld, hz, hx.trans hxz, z, rfl, hq⟩

/-- What has been followed from a site back to it. -/
theorem Spec.of_onward {x : Site} {m : Gen α} {Q : α → Site → Prop}
    (h : Onward env x.toWorld x.toWorld m fun a y => ∃ z : Site, z.toWorld = y ∧ Q a z) :
    Spec env x m Q := by
  intro a s hm
  obtain ⟨y, hy, hxy, z, rfl, hq⟩ := h a s hm
  exact ⟨z, hy, hxy, hq⟩

end Gen

end TypedLowering
