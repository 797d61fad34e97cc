import TypedLowering.Proofs.Ssa.Body

/-!
Which blocks of a function have no end yet, while the function is built. `Fills` compares two stages
of the construction: between them the block where it stood has got its end or is the one where it
still stands, and the blocks that were added have got theirs, apart from the block where it stands
now and those that are set aside for later.
-/
namespace TypedLowering.Ssa
set_option autoImplicit false

namespace Function

variable {f g : Function} {b c : BlockId}

/-! ## Blocks without end -/

/-- A block that has no end yet. -/
def Unended (f : Function) (b : BlockId) : Prop := f.HasBlock b ∧ f.exit b = none

/-- Every block ends. -/
def Complete (f : Function) : Prop := ∀ b, ¬ f.Unended b

theorem Complete.isSome_terminator (h : f.Complete) {block : Block} (hb : block ∈ f.blocks) :
    block.terminator.isSome = true := by
  obtain ⟨i, hi, rfl⟩ := Array.getElem_of_mem hb
  by_contra hn
  refine h ⟨i⟩ ⟨hi, ?_⟩
  simpa [exit, Array.getElem?_eq_getElem hi] using hn

theorem complete_of_blocks_eq_empty (h : f.blocks = #[]) : f.Complete := by
  intro b hb
  have hi := hb.1
  unfold HasBlock at hi
  simp [h] at hi

theorem Complete.of_blocks_eq (h : f.Complete) (hg : g.blocks = f.blocks) : g.Complete := by
  intro b hb
  refine h b ?_
  unfold Unended HasBlock exit at hb ⊢
  rwa [hg] at hb

@[simp] theorem unended_append (d : Definition) : (f.append b d).Unended c ↔ f.Unended c := by
  simp [Unended]

@[simp] theorem unended_addSlot (t : Ty) : (f.addSlot t).Unended c ↔ f.Unended c := by
  simp [Unended]

theorem unended_addBlock (word : String) :
    (f.addBlock word).Unended c ↔ f.Unended c ∨ c = f.nextBlock := by
  unfold Unended
  rw [hasBlock_addBlock, exit_addBlock]
  constructor
  · rintro ⟨hc | hc, he⟩
    · exact .inl ⟨hc, he⟩
    · exact .inr hc
  · rintro (⟨hc, he⟩ | rfl)
    · exact ⟨.inl hc, he⟩
    · exact ⟨.inr rfl, exit_of_not_hasBlock f.not_hasBlock_nextBlock⟩

theorem unended_terminate (hb : f.HasBlock b) (t : Terminator) :
    (f.terminate b t).Unended c ↔ f.Unended c ∧ c ≠ b := by
  unfold Unended
  rw [hasBlock_terminate, exit_terminate t hb]
  by_cases hc : c = b
  · simp [hc]
  · simp [hc]

/-! ## Stages of construction -/

/-- From the stage `f` with current block `b` to the stage `g` with current block `c`, where the
blocks `later` have been added and wait to be filled. -/
structure Fills (f : Function) (b : BlockId) (g : Function) (c : BlockId) (later : List BlockId) :
    Prop where
  size : f.blocks.size ≤ g.blocks.size
  inside : g.HasBlock c
  /-- The current block is the one from before or a new one. -/
  apart : c = b ∨ ¬ f.HasBlock c
  waiting : ∀ d ∈ later, ¬ f.HasBlock d ∧ d ≠ c
  nodup : later.Nodup
  unended : ∀ d, d ≠ c → (g.Unended d ↔ (f.Unended d ∧ d ≠ b) ∨ d ∈ later)

namespace Fills

variable {f₀ : Function} {b₀ : BlockId} {later : List BlockId}

theorem refl (h : f.HasBlock b) : f.Fills b f b [] where
  size := Nat.le_refl _
  inside := h
  apart := .inl rfl
  waiting := by simp
  nodup := .nil
  unended := by
    intro d hd
    simp [hd]

theorem hasBlock (h : f₀.Fills b₀ f b later) (hc : f₀.HasBlock c) : f.HasBlock c :=
  Nat.lt_of_lt_of_le hc h.size

theorem unended_waiting (h : f₀.Fills b₀ f b later) (hc : c ∈ later) : f.Unended c :=
  (h.unended c (h.waiting c hc).2).mpr (.inr hc)

/-- What the current block was is no longer among the blocks left without end. -/
theorem not_left (h : f₀.Fills b₀ f b later) : ¬ ((f₀.Unended b ∧ b ≠ b₀) ∨ b ∈ later) := by
  rintro (⟨hu, hne⟩ | hm)
  · rcases h.apart with he | hn
    · exact hne he
    · exact hn hu.1
  · exact (h.waiting b hm).2 rfl

theorem trans (h : f₀.Fills b₀ f b later) (h' : f.Fills b g c []) : f₀.Fills b₀ g c later where
  size := Nat.le_trans h.size h'.size
  inside := h'.inside
  apart := by
    rcases h'.apart with rfl | hn
    · exact h.apart
    · exact .inr fun hc => hn (h.hasBlock hc)
  waiting := by
    intro d hd
    refine ⟨(h.waiting d hd).1, ?_⟩
    rintro rfl
    rcases h'.apart with he | hn
    · exact (h.waiting d hd).2 he
    · exact hn (h.unended_waiting hd).1
  nodup := h.nodup
  unended := by
    intro d hd
    rw [h'.unended d hd]
    by_cases hb : d = b
    · rw [hb]
      simp [h.not_left]
    · simp [hb, h.unended d hb]

theorem append (h : f₀.Fills b₀ f b later) (d : Definition) : f₀.Fills b₀ (f.append b d) b later where
  size := by simpa using h.size
  inside := by simpa using h.inside
  apart := h.apart
  waiting := h.waiting
  nodup := h.nodup
  unended := by
    intro e he
    rw [unended_append, h.unended e he]

theorem addSlot (h : f₀.Fills b₀ f b later) (t : Ty) : f₀.Fills b₀ (f.addSlot t) b later where
  size := by simpa using h.size
  inside := by simpa using h.inside
  apart := h.apart
  waiting := h.waiting
  nodup := h.nodup
  unended := by
    intro e he
    rw [unended_addSlot, h.unended e he]

/-- A new block waits behind the others. -/
theorem addBlock (h : f₀.Fills b₀ f b later) (word : String) :
    f₀.Fills b₀ (f.addBlock word) b (later ++ [f.nextBlock]) where
  size := by
    rw [size_blocks_addBlock]
    exact Nat.le_succ_of_le h.size
  inside := (hasBlock_addBlock word).mpr (.inl h.inside)
  apart := h.apart
  waiting := by
    intro d hd
    rcases List.mem_append.mp hd with hd | hd
    · exact h.waiting d hd
    · rw [List.mem_singleton.mp hd]
      refine ⟨fun hn => not_hasBlock_nextBlock _ (h.hasBlock hn), ?_⟩
      intro he
      exact not_hasBlock_nextBlock _ (he ▸ h.inside)
  nodup := by
    refine List.nodup_append.mpr ⟨h.nodup, by simp, ?_⟩
    intro d hd e he hde
    rw [hde, List.mem_singleton.mp he] at hd
    exact not_hasBlock_nextBlock _ (h.unended_waiting hd).1
  unended := by
    intro d hd
    rw [unended_addBlock, h.unended d hd, List.mem_append, List.mem_singleton, or_assoc]

theorem terminate (h : f₀.Fills b₀ f b later) (t : Terminator) :
    f₀.Fills b₀ (f.terminate b t) b later where
  size := by simpa using h.size
  inside := by simpa using h.inside
  apart := h.apart
  waiting := h.waiting
  nodup := h.nodup
  unended := by
    intro d hd
    rw [unended_terminate h.inside, h.unended d hd]
    simp [hd]

/-- Going on in the block that has waited longest, once the current one ends. -/
theorem move (h : f₀.Fills b₀ f b (c :: later)) (hb : ¬ f.Unended b) : f₀.Fills b₀ f c later where
  size := h.size
  inside := (h.unended_waiting List.mem_cons_self).1
  apart := .inr (h.waiting c List.mem_cons_self).1
  waiting := by
    intro d hd
    refine ⟨(h.waiting d (List.mem_cons_of_mem _ hd)).1, ?_⟩
    rintro rfl
    exact (List.nodup_cons.mp h.nodup).1 hd
  nodup := (List.nodup_cons.mp h.nodup).2
  unended := by
    intro d hd
    by_cases hdb : d = b
    · have hn := h.not_left
      rw [hdb]
      simp only [List.mem_cons, not_or] at hn
      simp [hb, hn.1, hn.2.2]
    · rw [h.unended d hdb]
      simp [hd]

/-- A function with one block is complete once that block and all that was added have ended. -/
theorem complete (h : f.Fills b g c []) (hf : ∀ d, f.Unended d → d = b) (hc : ¬ g.Unended c) :
    g.Complete := by
  intro d hd
  by_cases hdc : d = c
  · exact hc (hdc ▸ hd)
  · rcases (h.unended d hdc).mp hd with ⟨hu, hne⟩ | hm
    · exact hne (hf d hu)
    · cases hm

end Fills

end Function

end TypedLowering.Ssa
