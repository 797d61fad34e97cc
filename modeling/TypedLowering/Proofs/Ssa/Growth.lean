import TypedLowering.Proofs.Ssa.Availability

/-!
How a body grows while code is generated from one block on. Only that block and blocks added later
change; a block that ends stays as it is; and a new edge leads to an added block or to one of the
agreed targets. The relation composes as long as generation goes on in a block of its own.
-/
namespace TypedLowering.Ssa
set_option autoImplicit false

namespace Function

theorem size_values_le {f g : Function}
    (h : ∀ {v d}, f.definition? v = some d → g.definition? v = some d) :
    f.values.size ≤ g.values.size := by
  by_contra hlt
  have hlast : f.definition? ⟨g.values.size⟩ = some f.values[g.values.size] :=
    Array.getElem?_eq_getElem (Nat.lt_of_not_le hlt)
  exact Nat.lt_irrefl _ (Flow.index_lt_of_definition? (h hlast))

/-- `g` has grown from `f` by generation from block `b` on, with edges to old blocks only if they
are among `targets`. -/
structure Grows (f g : Function) (b : BlockId) (targets : BlockId → Prop) : Prop where
  params : g.params = f.params
  values : ∀ {v d}, f.definition? v = some d → g.definition? v = some d
  slots : f.slots <+: g.slots
  size : f.blocks.size ≤ g.blocks.size
  kept : ∀ {c}, f.HasBlock c → c ≠ b → g.body c = f.body c ∧ g.exit c = f.exit c
  /-- Nothing that is added to block `b` is a phi. -/
  tail : ∃ l, g.body b = f.body b ++ l ∧
    ∀ v ∈ l, ∃ d, g.definition? v = some d ∧ ∀ incoming, d.op ≠ .phi incoming
  closed : ∀ {t}, f.exit b = some t → g.body b = f.body b ∧ g.exit b = some t
  edges : ∀ {c c'}, f.HasBlock c' → g.Edge c c' → f.Edge c c' ∨ targets c'

namespace Grows

variable {f g h : Function} {b c : BlockId} {T T' : BlockId → Prop}

theorem refl (f : Function) (b : BlockId) (T : BlockId → Prop) : f.Grows f b T where
  params := rfl
  values := id
  slots := List.prefix_refl _
  size := Nat.le_refl _
  kept := fun _ _ => ⟨rfl, rfl⟩
  tail := ⟨[], by simp, by simp⟩
  closed := fun ht => ⟨rfl, ht⟩
  edges := fun _ he => .inl he

theorem hasBlock (hg : f.Grows g b T) (hc : f.HasBlock c) : g.HasBlock c :=
  Nat.lt_of_lt_of_le hc hg.size

theorem size_values (hg : f.Grows g b T) : f.values.size ≤ g.values.size :=
  size_values_le hg.values

theorem isParam (hg : f.Grows g b T) {v : ValueId} : g.IsParam v ↔ f.IsParam v := by
  unfold IsParam
  rw [hg.params]

theorem body_prefix (hg : f.Grows g b T) (hc : f.HasBlock c) : f.body c <+: g.body c := by
  by_cases hcb : c = b
  · subst hcb
    obtain ⟨l, hl, -⟩ := hg.tail
    exact ⟨l, hl.symm⟩
  · simp only [(hg.kept hc hcb).1, List.prefix_refl]

theorem exit_eq (hg : f.Grows g b T) {t : Terminator} (ht : f.exit c = some t) :
    g.body c = f.body c ∧ g.exit c = some t := by
  by_cases hcb : c = b
  · subst hcb
    exact hg.closed ht
  · have hk := hg.kept (hasBlock_of_exit ht) hcb
    exact ⟨hk.1, hk.2.trans ht⟩

theorem edge (hg : f.Grows g b T) {c' : BlockId} (he : f.Edge c c') : g.Edge c c' := by
  obtain ⟨t, ht, hc'⟩ := he
  exact ⟨t, (hg.exit_eq ht).2, hc'⟩

/-- Growth goes on from a block of its own: the same, or one that was added. -/
theorem trans (hfg : f.Grows g b T) (hb : f.HasBlock b) (hc : c = b ∨ ¬ f.HasBlock c)
    (hgh : g.Grows h c T') (hT : ∀ c', f.HasBlock c' → T' c' → T c') : f.Grows h b T where
  params := hgh.params.trans hfg.params
  values := fun hd => hgh.values (hfg.values hd)
  slots := hfg.slots.trans hgh.slots
  size := Nat.le_trans hfg.size hgh.size
  kept := by
    intro c' hc' hne
    have hcc : c' ≠ c := by
      rcases hc with rfl | hc
      · exact hne
      · rintro rfl
        exact hc hc'
    obtain ⟨h1, h2⟩ := hfg.kept hc' hne
    obtain ⟨h3, h4⟩ := hgh.kept (hfg.hasBlock hc') hcc
    exact ⟨h3.trans h1, h4.trans h2⟩
  tail := by
    obtain ⟨l, hl, hphi⟩ := hfg.tail
    have hl' : ∀ v ∈ l, ∃ d, h.definition? v = some d ∧ ∀ incoming, d.op ≠ .phi incoming := by
      intro v hv
      obtain ⟨d, hd, hn⟩ := hphi v hv
      exact ⟨d, hgh.values hd, hn⟩
    by_cases hcb : c = b
    · subst hcb
      obtain ⟨l', hk, hphi'⟩ := hgh.tail
      refine ⟨l ++ l', by rw [hk, hl, List.append_assoc], ?_⟩
      intro v hv
      rcases List.mem_append.mp hv with hv | hv
      · exact hl' v hv
      · exact hphi' v hv
    · rw [(hgh.kept (hfg.hasBlock hb) (Ne.symm hcb)).1]
      exact ⟨l, hl, hl'⟩
  closed := by
    intro t ht
    obtain ⟨h1, h2⟩ := hfg.closed ht
    obtain ⟨h3, h4⟩ := hgh.exit_eq h2
    exact ⟨h3.trans h1, h4⟩
  edges := by
    intro c₁ c₂ hc₂ he
    rcases hgh.edges (hfg.hasBlock hc₂) he with he | ht
    · exact hfg.edges hc₂ he
    · exact .inr (hT c₂ hc₂ ht)

/-- Anything, also a phi, may be appended to a block that was added. -/
theorem append_added (hg : f.Grows g b T) (hs : g.Shaped) (hb : f.HasBlock b) (hc : g.HasBlock c)
    (hn : ¬ f.HasBlock c) (d : Definition) : f.Grows (g.append c d) b T where
  params := hg.params
  values := fun hd => definition?_of_push (values_append g c d) (hg.values hd)
  slots := by
    rw [slots_append d hs]
    exact hg.slots
  size := by simpa using hg.size
  kept := by
    intro c' hc' hne
    have hcc : c' ≠ c := by
      rintro rfl
      exact hn hc'
    rw [body_append d hs hc, if_neg hcc, exit_append]
    exact hg.kept hc' hne
  tail := by
    obtain ⟨l, hl, hphi⟩ := hg.tail
    have hbc : b ≠ c := by
      rintro rfl
      exact hn hb
    refine ⟨l, by rw [body_append d hs hc, if_neg hbc, hl], ?_⟩
    intro v hv
    obtain ⟨e, he, hne⟩ := hphi v hv
    exact ⟨e, definition?_of_push (values_append g c d) he, hne⟩
  closed := by
    intro t ht
    have hbc : b ≠ c := by
      rintro rfl
      exact hn hb
    rw [body_append d hs hc, if_neg hbc, exit_append]
    exact hg.closed ht
  edges := by
    intro c₁ c₂ hc₂ he
    exact hg.edges hc₂ ((edge_congr (exit_append d) c₁ c₂).mp he)

theorem phiFree {A : Heads} (hg : f.Grows g b T) (hf : f.Flow A) (hc : f.HasBlock c)
    (hp : f.PhiFree c) : g.PhiFree c := by
  -- the definition of an old instruction is still the one it had
  have old : ∀ v ∈ f.body c, ∀ d, g.definition? v = some d → ∀ incoming, d.op ≠ .phi incoming := by
    intro v hv d hd
    obtain ⟨e, he⟩ : ∃ e, f.definition? v = some e :=
      ⟨_, Array.getElem?_eq_getElem (hf.placed hv).2⟩
    obtain rfl : e = d := Option.some.inj ((hg.values he).symm.trans hd)
    exact hp v hv e he
  by_cases hcb : c = b
  · subst hcb
    obtain ⟨l, hl, hphi⟩ := hg.tail
    intro v hv d hd
    rw [hl] at hv
    rcases List.mem_append.mp hv with hv | hv
    · exact old v hv d hd
    · obtain ⟨e, he, hn⟩ := hphi v hv
      obtain rfl : e = d := Option.some.inj (he.symm.trans hd)
      exact hn
  · intro v hv
    rw [(hg.kept hc hcb).1] at hv
    exact old v hv

theorem local_of_local {A A' : Heads} (hg : f.Grows g b T) (hA : ∀ c, f.HasBlock c → A' c = A c)
    (hc : f.HasBlock c) {v : ValueId} (h : f.Local A c v) : g.Local A' c v := by
  rcases h with h | h
  · exact .inl (by rwa [hA c hc])
  · exact .inr ((hg.body_prefix hc).subset h)

end Grows

/-! ## The operations -/

section Operations

variable {f : Function} {A : Heads} {b : BlockId} {T : BlockId → Prop}

theorem grows_append {d : Definition} (hf : f.Flow A) (hb : f.HasBlock b) (ho : f.exit b = none)
    (hd : ∀ incoming, d.op ≠ .phi incoming) : f.Grows (f.append b d) b T where
  params := rfl
  values := definition?_of_push (values_append f b d)
  slots := by simp only [slots_append d hf.shaped, List.prefix_refl]
  size := by simp
  kept := by
    intro c _ hne
    rw [body_append d hf.shaped hb, if_neg hne]
    exact ⟨rfl, exit_append d c⟩
  tail := by
    refine ⟨[f.nextValue], by rw [body_append d hf.shaped hb, if_pos rfl], ?_⟩
    intro v hv
    obtain rfl := List.mem_singleton.mp hv
    exact ⟨d, definition?_append_next f b d, hd⟩
  closed := by
    intro t ht
    rw [ho] at ht
    cases ht
  edges := by
    intro c c' _ he
    exact .inl ((edge_congr (exit_append d) c c').mp he)

theorem grows_addSlot (hf : f.Flow A) (t : Ty) : f.Grows (f.addSlot t) b T where
  params := rfl
  values := definition?_of_push (values_addSlot f t)
  slots := by
    rw [slots_addSlot t hf.shaped]
    exact List.prefix_append _ _
  size := by simp
  kept := fun _ _ => ⟨body_addSlot t hf.shaped _, exit_addSlot t _⟩
  tail := ⟨[], by rw [body_addSlot t hf.shaped, List.append_nil], by simp⟩
  closed := fun ht => ⟨body_addSlot t hf.shaped _, (exit_addSlot t _).trans ht⟩
  edges := fun _ he => .inl ((edge_congr (exit_addSlot t) _ _).mp he)

theorem grows_addBlock (hf : f.Flow A) (word : String) : f.Grows (f.addBlock word) b T where
  params := rfl
  values := id
  slots := by simp only [slots_addBlock word hf.shaped, List.prefix_refl]
  size := by simp
  kept := fun _ _ => ⟨body_addBlock word _, exit_addBlock word _⟩
  tail := ⟨[], by rw [body_addBlock, List.append_nil], by simp⟩
  closed := fun ht => ⟨body_addBlock word _, (exit_addBlock word _).trans ht⟩
  edges := fun _ he => .inl ((edge_congr (exit_addBlock word) _ _).mp he)

theorem grows_terminate {t : Terminator} (hb : f.HasBlock b) (ho : f.exit b = none)
    (hT : ∀ c ∈ t.successors, f.HasBlock c → T c) : f.Grows (f.terminate b t) b T where
  params := rfl
  values := id
  slots := by simp only [slots_terminate, List.prefix_refl]
  size := by simp
  kept := by
    intro c _ hne
    rw [exit_terminate t hb, if_neg hne]
    exact ⟨body_terminate t c, rfl⟩
  tail := ⟨[], by rw [body_terminate, List.append_nil], by simp⟩
  closed := by
    intro t' ht
    rw [ho] at ht
    cases ht
  edges := by
    intro c c' hc' he
    rcases (Flow.edge_terminate hb ho).mp he with he | ⟨-, h⟩
    · exact .inl he
    · exact .inr (hT c' h hc')

end Operations

/-! ## Completion -/

/-- `F` has all the code of `f`, and a block that ends in `f` is the same in `F`. Unlike growth this
says nothing about where the code was added. -/
structure Completes (F f : Function) : Prop where
  values : ∀ {v d}, f.definition? v = some d → F.definition? v = some d
  slots : f.slots <+: F.slots
  slot : ∀ {v}, v ∈ F.slots → ∃ t, F.definition? v = some ⟨.alloca t, .ptr⟩
  size : f.blocks.size ≤ F.blocks.size
  body : ∀ {b}, f.HasBlock b → f.body b <+: F.body b
  exit : ∀ {b t}, f.exit b = some t → F.body b = f.body b ∧ F.exit b = some t

namespace Completes

variable {F f g : Function} {A : Heads} {b : BlockId}

theorem refl (hf : f.Flow A) : f.Completes f where
  values := id
  slots := List.prefix_refl _
  slot := hf.slot
  size := Nat.le_refl _
  body := fun _ => List.prefix_refl _
  exit := fun ht => ⟨rfl, ht⟩

theorem hasBlock (h : F.Completes f) (hb : f.HasBlock b) : F.HasBlock b :=
  Nat.lt_of_lt_of_le hb h.size

theorem trans (h : F.Completes g) (h' : g.Completes f) : F.Completes f where
  values := fun hd => h.values (h'.values hd)
  slots := h'.slots.trans h.slots
  slot := h.slot
  size := Nat.le_trans h'.size h.size
  body := fun hb => (h'.body hb).trans (h.body (h'.hasBlock hb))
  exit := by
    intro b t ht
    obtain ⟨hb, ht'⟩ := h'.exit ht
    obtain ⟨hb', ht''⟩ := h.exit ht'
    exact ⟨hb'.trans hb, ht''⟩

theorem of_grows {T : BlockId → Prop} (hg : f.Grows g b T) (hf : g.Flow A) : g.Completes f where
  values := hg.values
  slots := hg.slots
  slot := hf.slot
  size := hg.size
  body := hg.body_prefix
  exit := hg.exit_eq

theorem of_append (hf : f.Flow A) (hb : f.HasBlock b) (ho : f.exit b = none) (d : Definition) :
    (f.append b d).Completes f where
  values := definition?_of_push (values_append f b d)
  slots := by simp only [slots_append d hf.shaped, List.prefix_refl]
  slot := by
    intro v hv
    rw [slots_append d hf.shaped] at hv
    obtain ⟨t, ht⟩ := hf.slot hv
    exact ⟨t, definition?_of_push (values_append f b d) ht⟩
  size := by simp
  body := by
    intro c _
    rw [body_append d hf.shaped hb]
    split
    · next h => exact h ▸ List.prefix_append _ _
    · exact List.prefix_refl _
  exit := by
    intro c t ht
    have hne : c ≠ b := by
      rintro rfl
      rw [ho] at ht
      cases ht
    rw [body_append d hf.shaped hb, if_neg hne, exit_append]
    exact ⟨rfl, ht⟩

theorem of_terminate (hf : f.Flow A) (hb : f.HasBlock b) (ho : f.exit b = none) (t : Terminator) :
    (f.terminate b t).Completes f where
  values := id
  slots := by simp only [slots_terminate, List.prefix_refl]
  slot := by
    intro v hv
    rw [slots_terminate] at hv
    exact hf.slot hv
  size := by simp
  body := by
    intro c _
    simp only [body_terminate, List.prefix_refl]
  exit := by
    intro c t' ht
    have hne : c ≠ b := by
      rintro rfl
      rw [ho] at ht
      cases ht
    rw [body_terminate, exit_terminate t hb, if_neg hne]
    exact ⟨rfl, ht⟩

end Completes

/-- A function that has only its entry block. -/
theorem flow_entry (name : String) (params : List Ty) (ret : Ty) (linkage : Linkage)
    (word : String) : ((shell name params ret linkage).addBlock word).Flow fun _ _ => False := by
  have hsize : (shell name params ret linkage).blocks.size = 0 := rfl
  have hbody (b : BlockId) : ((shell name params ret linkage).addBlock word).body b = [] := by
    rw [body_addBlock]
    exact body_of_not_hasBlock (by simp [HasBlock, hsize])
  have hexit (b : BlockId) : ((shell name params ret linkage).addBlock word).exit b = none := by
    rw [exit_addBlock]
    exact exit_of_not_hasBlock (by simp [HasBlock, hsize])
  have hslots : ((shell name params ret linkage).addBlock word).slots = [] := by
    unfold slots
    rw [getElem?_blocks_addBlock, if_pos hsize.symm]
    rfl
  exact {
    shaped := ⟨by simp, fun block _ => Nat.zero_le _⟩
    params := by simp [shell, addBlock, paramDefinitions]
    placed := by simp [hbody]
    nodup := by simp [hbody]
    once := by simp [hbody]
    slot := by simp [hslots]
    slots_nodup := by simp [hslots]
    slot_apart := by simp [hbody]
    head := fun h => h.elim
    entry_head := fun _ => id
    ordered := by simp [hbody]
    arms := by simp [hbody]
    phis := by simp [hbody]
    leave := by simp [hexit] }

end Function

end TypedLowering.Ssa
