import Mathlib.Data.List.Nodup
import TypedLowering.Proofs.Ssa.Dominance

/-!
Availability: an assignment of values to the heads of blocks that shows a body to be valid while it
is still under construction. The rule for an edge is that what is available at the head of the
target is available at the end of the source. Main statements: each operation on functions keeps to
the rules, and a body that keeps to them is valid.
-/
namespace TypedLowering.Ssa
set_option autoImplicit false

namespace Function

/-- For each block, the values that are available at its head. -/
abbrev Heads := BlockId → ValueId → Prop

/-- The heads with those of one block replaced. -/
def Heads.set (A : Heads) (b : BlockId) (S : ValueId → Prop) : Heads :=
  fun c v => if c = b then S v else A c v

theorem Heads.set_of_ne {A : Heads} {b c : BlockId} {S : ValueId → Prop} (h : c ≠ b) :
    A.set b S c = A c := by
  unfold Heads.set
  simp [h]

@[simp] theorem Heads.set_self {A : Heads} {b : BlockId} {S : ValueId → Prop} :
    A.set b S b = S := by
  unfold Heads.set
  simp

/-- Available at the end of a block: at its head, or defined in it. -/
def Local (f : Function) (A : Heads) (b : BlockId) (v : ValueId) : Prop := A b v ∨ v ∈ f.body b

/-- What an instruction at the end of a block may read: parameters, stack slots and what is
available there. -/
def Known (f : Function) (A : Heads) (b : BlockId) (v : ValueId) : Prop :=
  f.IsParam v ∨ v ∈ f.slots ∨ f.Local A b v

/-- A block without phi. -/
def PhiFree (f : Function) (b : BlockId) : Prop :=
  ∀ v ∈ f.body b, ∀ d, f.definition? v = some d → ∀ incoming, d.op ≠ .phi incoming

/-- The rules of availability. -/
structure Flow (f : Function) (A : Heads) : Prop where
  shaped : f.Shaped
  params : f.params.length ≤ f.values.size
  placed : ∀ {b v}, v ∈ f.body b → f.params.length ≤ v.index ∧ v.index < f.values.size
  nodup : ∀ b, (f.body b).Nodup
  once : ∀ {b c v}, v ∈ f.body b → v ∈ f.body c → b = c
  slot : ∀ {v}, v ∈ f.slots → ∃ t, f.definition? v = some ⟨.alloca t, .ptr⟩
  slots_nodup : f.slots.Nodup
  slot_apart : ∀ {b v}, v ∈ f.slots → v ∉ f.body b
  head : ∀ {b v}, A b v → v ∉ f.body b ∧ ∃ c, v ∈ f.body c
  entry_head : ∀ v, ¬ A entry v
  ordered : ∀ {b before v after d}, f.body b = before ++ v :: after → f.definition? v = some d →
    ∀ u ∈ d.op.uses, f.IsParam u ∨ u ∈ f.slots ∨ A b u ∨ u ∈ before
  arms : ∀ {b v d}, v ∈ f.body b → f.definition? v = some d →
    ∀ arm ∈ d.op.arms, f.Known A arm.2 arm.1
  phis : ∀ {b v d incoming}, v ∈ f.body b → f.definition? v = some d → d.op = .phi incoming →
    (incoming.map (·.2)).Nodup ∧ ∀ c, c ∈ incoming.map (·.2) ↔ f.Edge c b
  leave : ∀ {b t}, f.exit b = some t → (∀ u ∈ t.uses, f.Known A b u) ∧
    ∀ c ∈ t.successors, f.HasBlock c ∧ c ≠ entry ∧ ∀ v, A c v → f.Local A b v

namespace Flow

variable {f : Function} {A : Heads}

/-! ## Values in range -/

theorem index_lt_of_definition? {v : ValueId} {d : Definition} (h : f.definition? v = some d) :
    v.index < f.values.size := by
  unfold definition? at h
  by_contra hv
  rw [Array.getElem?_eq_none (Nat.le_of_not_lt hv)] at h
  cases h

theorem index_lt_of_slot (hf : f.Flow A) {v : ValueId} (h : v ∈ f.slots) :
    v.index < f.values.size := by
  obtain ⟨t, ht⟩ := hf.slot h
  exact index_lt_of_definition? ht

theorem index_lt_of_head (hf : f.Flow A) {b : BlockId} {v : ValueId} (h : A b v) :
    v.index < f.values.size := by
  obtain ⟨c, hc⟩ := (hf.head h).2
  exact (hf.placed hc).2

theorem index_lt_of_local (hf : f.Flow A) {b : BlockId} {v : ValueId} (h : f.Local A b v) :
    v.index < f.values.size := by
  rcases h with h | h
  · exact hf.index_lt_of_head h
  · exact (hf.placed h).2

theorem index_lt_of_known (hf : f.Flow A) {b : BlockId} {v : ValueId} (h : f.Known A b v) :
    v.index < f.values.size := by
  rcases h with h | h | h
  · exact Nat.lt_of_lt_of_le h hf.params
  · exact hf.index_lt_of_slot h
  · exact hf.index_lt_of_local h

theorem nextValue_not_mem_body (hf : f.Flow A) (b : BlockId) : f.nextValue ∉ f.body b :=
  fun h => Nat.lt_irrefl _ (hf.placed h).2

theorem nextValue_not_mem_slots (hf : f.Flow A) : f.nextValue ∉ f.slots :=
  fun h => Nat.lt_irrefl _ (hf.index_lt_of_slot h)

end Flow

/-- An old value keeps its definition when the next one is entered. -/
theorem definition?_push {f g : Function} {d e : Definition} {v : ValueId}
    (hg : g.values = f.values.push d) (h : g.definition? v = some e) :
    f.definition? v = some e ∨ v = f.nextValue ∧ e = d := by
  unfold definition? at h
  rw [hg, Array.getElem?_push] at h
  split at h
  · next hv =>
    right
    exact ⟨by cases v; simp_all [nextValue], by simpa using h.symm⟩
  · exact .inl h

theorem definition?_of_push {f g : Function} {d e : Definition} {v : ValueId}
    (hg : g.values = f.values.push d) (h : f.definition? v = some e) : g.definition? v = some e := by
  have hv := Flow.index_lt_of_definition? h
  unfold definition? at h ⊢
  rw [hg, Array.getElem?_push, if_neg (by omega)]
  exact h

/-! ## Operations that keep to the rules -/

theorem edge_congr {f g : Function} (h : ∀ b, g.exit b = f.exit b) (b c : BlockId) :
    g.Edge b c ↔ f.Edge b c := by
  unfold Edge
  rw [h]

theorem concat_eq_append_cons {α : Type} {l before after : List α} {v w : α}
    (h : l ++ [w] = before ++ v :: after) :
    (before = l ∧ v = w) ∨ ∃ after', l = before ++ v :: after' := by
  rcases List.eq_nil_or_concat' after with rfl | ⟨after', x, rfl⟩
  · obtain ⟨h1, h2⟩ := List.append_inj' h rfl
    exact .inl ⟨h1.symm, by simpa using h2.symm⟩
  · rw [← List.cons_append, ← List.append_assoc] at h
    obtain ⟨h1, -⟩ := List.append_inj' h rfl
    exact .inr ⟨after', h1⟩

theorem mem_of_split {l before after : List ValueId} {v : ValueId} (h : l = before ++ v :: after) :
    v ∈ l := by
  rw [h]
  simp

namespace Flow

variable {f : Function} {A : Heads}

section Append

variable {b : BlockId} {d : Definition}

theorem inst_append (hf : f.Flow A) (hb : f.HasBlock b) {c : BlockId} {v : ValueId}
    {e : Definition} (hv : v ∈ (f.append b d).body c) (he : (f.append b d).definition? v = some e) :
    v ∈ f.body c ∧ f.definition? v = some e ∨ c = b ∧ v = f.nextValue ∧ e = d := by
  rcases (mem_body_append d hf.shaped hb).mp hv with hv' | ⟨hc, hv'⟩
  · rcases definition?_push (values_append f b d) he with he' | ⟨hn, -⟩
    · exact .inl ⟨hv', he'⟩
    · exact absurd (hn ▸ hv') (hf.nextValue_not_mem_body c)
  · rcases definition?_push (values_append f b d) he with he' | ⟨-, hd⟩
    · have := index_lt_of_definition? he'
      rw [hv'] at this
      exact absurd this (Nat.lt_irrefl _)
    · exact .inr ⟨hc, hv', hd⟩

theorem local_append (hf : f.Flow A) (hb : f.HasBlock b) {c : BlockId} {v : ValueId}
    (h : f.Local A c v) : (f.append b d).Local A c v := by
  rcases h with h | h
  · exact .inl h
  · exact .inr ((mem_body_append d hf.shaped hb).mpr (.inl h))

theorem known_append (hf : f.Flow A) (hb : f.HasBlock b) {c : BlockId} {v : ValueId}
    (h : f.Known A c v) : (f.append b d).Known A c v := by
  rcases h with h | h | h
  · exact .inl h
  · exact .inr (.inl (by rwa [slots_append d hf.shaped]))
  · exact .inr (.inr (hf.local_append hb h))

theorem known_append_next (hf : f.Flow A) (hb : f.HasBlock b) :
    (f.append b d).Known A b f.nextValue :=
  .inr (.inr (.inr ((mem_body_append d hf.shaped hb).mpr (.inr ⟨rfl, rfl⟩))))

/-- An instruction may be appended that reads what is known. The arms of a phi must stand for
exactly the blocks that lead there. -/
theorem append (hf : f.Flow A) (hb : f.HasBlock b) (hu : ∀ u ∈ d.op.uses, f.Known A b u)
    (ha : ∀ arm ∈ d.op.arms, f.Known A arm.2 arm.1)
    (hp : ∀ incoming, d.op = .phi incoming →
      (incoming.map (·.2)).Nodup ∧ ∀ c, c ∈ incoming.map (·.2) ↔ f.Edge c b) :
    (f.append b d).Flow A where
  shaped := shaped_append d hf.shaped
  params := by
    have := hf.params
    simp only [params_append, values_append, Array.size_push]
    omega
  placed := by
    intro c v hv
    have := hf.params
    simp only [params_append, values_append, Array.size_push]
    rcases (mem_body_append d hf.shaped hb).mp hv with hv | ⟨-, rfl⟩
    · have := hf.placed hv
      omega
    · simp only [nextValue]
      omega
  nodup := by
    intro c
    rw [body_append d hf.shaped hb]
    split
    · exact (hf.nodup b).append (List.nodup_singleton _)
        (List.disjoint_singleton.mpr (hf.nextValue_not_mem_body b))
    · exact hf.nodup c
  once := by
    intro c c' v hv hv'
    rcases (mem_body_append d hf.shaped hb).mp hv with hv | ⟨hc, rfl⟩
    · rcases (mem_body_append d hf.shaped hb).mp hv' with hv' | ⟨-, rfl⟩
      · exact hf.once hv hv'
      · exact absurd hv (hf.nextValue_not_mem_body c)
    · rcases (mem_body_append d hf.shaped hb).mp hv' with hv' | ⟨hc', -⟩
      · exact absurd hv' (hf.nextValue_not_mem_body c')
      · rw [hc, hc']
  slot := by
    intro v hv
    rw [slots_append d hf.shaped] at hv
    obtain ⟨t, ht⟩ := hf.slot hv
    exact ⟨t, definition?_of_push (values_append f b d) ht⟩
  slots_nodup := by
    rw [slots_append d hf.shaped]
    exact hf.slots_nodup
  slot_apart := by
    intro c v hv hc
    rw [slots_append d hf.shaped] at hv
    rcases (mem_body_append d hf.shaped hb).mp hc with hc | ⟨-, rfl⟩
    · exact hf.slot_apart hv hc
    · exact hf.nextValue_not_mem_slots hv
  head := by
    intro c v hv
    obtain ⟨hn, c', hc'⟩ := hf.head hv
    refine ⟨?_, c', (mem_body_append d hf.shaped hb).mpr (.inl hc')⟩
    rw [mem_body_append d hf.shaped hb]
    rintro (h | ⟨-, rfl⟩)
    · exact hn h
    · exact hf.nextValue_not_mem_body c' hc'
  entry_head := hf.entry_head
  ordered := by
    intro c before v after e hc he u hu'
    have hv := mem_of_split hc
    rw [slots_append d hf.shaped]
    rw [body_append d hf.shaped hb] at hc
    rcases hf.inst_append hb hv he with ⟨hv', he'⟩ | ⟨rfl, rfl, rfl⟩
    · split at hc
      · next hcb =>
        rcases concat_eq_append_cons hc with ⟨-, hn⟩ | ⟨after', hc'⟩
        · exact absurd (hn ▸ hv') (hf.nextValue_not_mem_body c)
        · exact hf.ordered (hcb ▸ hc') he' u hu'
      · exact hf.ordered hc he' u hu'
    · rw [if_pos rfl] at hc
      rcases concat_eq_append_cons hc with ⟨rfl, -⟩ | ⟨after', hc'⟩
      · exact hu u hu'
      · exact absurd (mem_of_split hc') (hf.nextValue_not_mem_body c)
  arms := by
    intro c v e hv he arm harm
    rcases hf.inst_append hb hv he with ⟨hv', he'⟩ | ⟨-, -, rfl⟩
    · exact hf.known_append hb (hf.arms hv' he' arm harm)
    · exact hf.known_append hb (ha arm harm)
  phis := by
    intro c v e incoming hv he hi
    simp only [edge_congr (exit_append d)]
    rcases hf.inst_append hb hv he with ⟨hv', he'⟩ | ⟨rfl, -, rfl⟩
    · exact hf.phis hv' he' hi
    · exact hp incoming hi
  leave := by
    intro c t ht
    rw [exit_append] at ht
    obtain ⟨hu', hs⟩ := hf.leave ht
    refine ⟨fun u h => hf.known_append hb (hu' u h), ?_⟩
    intro c' hc'
    obtain ⟨h1, h2, h3⟩ := hs c' hc'
    exact ⟨(hasBlock_append d).mpr h1, h2, fun v hv => hf.local_append hb (h3 v hv)⟩

end Append

section AddSlot

variable (t : Ty)

theorem definition?_addSlot_of_body (hf : f.Flow A) {b : BlockId} {v : ValueId} {e : Definition}
    (hv : v ∈ f.body b) (he : (f.addSlot t).definition? v = some e) : f.definition? v = some e := by
  rcases definition?_push (values_addSlot f t) he with he | ⟨rfl, -⟩
  · exact he
  · exact absurd hv (hf.nextValue_not_mem_body b)

theorem known_addSlot (hf : f.Flow A) {c : BlockId} {v : ValueId} (h : f.Known A c v) :
    (f.addSlot t).Known A c v := by
  unfold Known Local
  rw [body_addSlot t hf.shaped, slots_addSlot t hf.shaped, List.mem_append]
  rcases h with h | h | h
  · exact .inl h
  · exact .inr (.inl (.inl h))
  · exact .inr (.inr h)

theorem known_addSlot_next (hf : f.Flow A) (b : BlockId) :
    (f.addSlot t).Known A b f.nextValue := by
  refine .inr (.inl ?_)
  rw [slots_addSlot t hf.shaped]
  simp

/-- A stack slot may always be added. -/
theorem addSlot (hf : f.Flow A) : (f.addSlot t).Flow A where
  shaped := shaped_addSlot t hf.shaped
  params := by
    have := hf.params
    simp only [params_addSlot, values_addSlot, Array.size_push]
    omega
  placed := by
    intro c v hv
    rw [body_addSlot t hf.shaped] at hv
    have := hf.placed hv
    simp only [params_addSlot, values_addSlot, Array.size_push]
    omega
  nodup := by
    intro c
    rw [body_addSlot t hf.shaped]
    exact hf.nodup c
  once := by
    intro c c' v hv hv'
    rw [body_addSlot t hf.shaped] at hv hv'
    exact hf.once hv hv'
  slot := by
    intro v hv
    rw [slots_addSlot t hf.shaped, List.mem_append, List.mem_singleton] at hv
    rcases hv with hv | rfl
    · obtain ⟨t', ht'⟩ := hf.slot hv
      exact ⟨t', definition?_of_push (values_addSlot f t) ht'⟩
    · exact ⟨t, by simp [definition?, nextValue]⟩
  slots_nodup := by
    rw [slots_addSlot t hf.shaped]
    exact hf.slots_nodup.append (List.nodup_singleton _)
      (List.disjoint_singleton.mpr hf.nextValue_not_mem_slots)
  slot_apart := by
    intro c v hv hc
    rw [slots_addSlot t hf.shaped, List.mem_append, List.mem_singleton] at hv
    rw [body_addSlot t hf.shaped] at hc
    rcases hv with hv | rfl
    · exact hf.slot_apart hv hc
    · exact hf.nextValue_not_mem_body c hc
  head := by
    intro c v hv
    simp only [body_addSlot t hf.shaped]
    exact hf.head hv
  entry_head := hf.entry_head
  ordered := by
    intro c before v after e hc he u hu
    rw [body_addSlot t hf.shaped] at hc
    have hv := mem_of_split hc
    rw [slots_addSlot t hf.shaped, List.mem_append]
    rcases hf.ordered hc (hf.definition?_addSlot_of_body t hv he) u hu with h | h | h
    · exact .inl h
    · exact .inr (.inl (.inl h))
    · exact .inr (.inr h)
  arms := by
    intro c v e hv he arm harm
    rw [body_addSlot t hf.shaped] at hv
    exact hf.known_addSlot t (hf.arms hv (hf.definition?_addSlot_of_body t hv he) arm harm)
  phis := by
    intro c v e incoming hv he hi
    rw [body_addSlot t hf.shaped] at hv
    simp only [edge_congr (exit_addSlot t)]
    exact hf.phis hv (hf.definition?_addSlot_of_body t hv he) hi
  leave := by
    intro c t' ht
    rw [exit_addSlot] at ht
    obtain ⟨hu, hs⟩ := hf.leave ht
    refine ⟨fun u h => hf.known_addSlot t (hu u h), ?_⟩
    intro c' hc'
    obtain ⟨h1, h2, h3⟩ := hs c' hc'
    refine ⟨(hasBlock_addSlot t).mpr h1, h2, ?_⟩
    unfold Local
    rw [body_addSlot t hf.shaped]
    exact h3

end AddSlot

section AddBlock

variable {b : BlockId} (word : String)

theorem ne_nextBlock {c : BlockId} (h : f.HasBlock c) : c ≠ f.nextBlock := by
  rintro rfl
  exact not_hasBlock_nextBlock f h

theorem hasBlock_of_arm (hf : f.Flow A) {c : BlockId} {v : ValueId} {d : Definition}
    (hv : v ∈ f.body c) (hd : f.definition? v = some d) {arm : ValueId × BlockId}
    (harm : arm ∈ d.op.arms) : f.HasBlock arm.2 := by
  cases hop : d.op with
  | phi incoming =>
    rw [hop] at harm
    have hmem : arm.2 ∈ incoming.map (·.2) := List.mem_map_of_mem harm
    obtain ⟨t, ht, -⟩ := ((hf.phis hv hd hop).2 arm.2).mp hmem
    exact hasBlock_of_exit ht
  | _ => rw [hop] at harm; cases harm

theorem known_addBlock (hf : f.Flow A) {c : BlockId} {v : ValueId} {S : ValueId → Prop}
    (hc : f.HasBlock c) (h : f.Known A c v) :
    (f.addBlock word).Known (A.set f.nextBlock S) c v := by
  unfold Known Local
  rw [Heads.set_of_ne (ne_nextBlock hc), slots_addBlock word hf.shaped, body_addBlock]
  exact h

/-- A block may be added; what is available at the end of an old one may be available at its
head. -/
theorem addBlock (hf : f.Flow A) : (f.addBlock word).Flow (A.set f.nextBlock (f.Local A b)) where
  shaped := shaped_addBlock word hf.shaped
  params := hf.params
  placed := by
    intro c v hv
    rw [body_addBlock] at hv
    exact hf.placed hv
  nodup := by
    intro c
    rw [body_addBlock]
    exact hf.nodup c
  once := by
    intro c c' v hv hv'
    rw [body_addBlock] at hv hv'
    exact hf.once hv hv'
  slot := by
    intro v hv
    rw [slots_addBlock word hf.shaped] at hv
    exact hf.slot hv
  slots_nodup := by
    rw [slots_addBlock word hf.shaped]
    exact hf.slots_nodup
  slot_apart := by
    intro c v hv
    rw [slots_addBlock word hf.shaped] at hv
    rw [body_addBlock]
    exact hf.slot_apart hv
  head := by
    intro c v hv
    simp only [body_addBlock]
    by_cases hc : c = f.nextBlock
    · subst hc
      rw [Heads.set_self] at hv
      rw [body_of_not_hasBlock (not_hasBlock_nextBlock f)]
      rcases hv with hv | hv
      · exact ⟨List.not_mem_nil, (hf.head hv).2⟩
      · exact ⟨List.not_mem_nil, b, hv⟩
    · rw [Heads.set_of_ne hc] at hv
      exact hf.head hv
  entry_head := by
    intro v
    rw [Heads.set_of_ne (ne_nextBlock (c := entry) hf.shaped.entry)]
    exact hf.entry_head v
  ordered := by
    intro c before v after e hc he u hu
    rw [body_addBlock] at hc
    have hb := hasBlock_of_mem_body (mem_of_split hc)
    rw [slots_addBlock word hf.shaped, Heads.set_of_ne (ne_nextBlock hb)]
    exact hf.ordered hc he u hu
  arms := by
    intro c v e hv he arm harm
    rw [body_addBlock] at hv
    exact hf.known_addBlock word (hf.hasBlock_of_arm hv he harm) (hf.arms hv he arm harm)
  phis := by
    intro c v e incoming hv he hi
    rw [body_addBlock] at hv
    simp only [edge_congr (exit_addBlock word)]
    exact hf.phis hv he hi
  leave := by
    intro c t ht
    rw [exit_addBlock] at ht
    have hc := hasBlock_of_exit ht
    obtain ⟨hu, hs⟩ := hf.leave ht
    refine ⟨fun u h => hf.known_addBlock word hc (hu u h), ?_⟩
    intro c' hc'
    obtain ⟨h1, h2, h3⟩ := hs c' hc'
    refine ⟨(hasBlock_addBlock word).mpr (.inl h1), h2, ?_⟩
    unfold Local
    rw [Heads.set_of_ne (ne_nextBlock h1), Heads.set_of_ne (ne_nextBlock hc), body_addBlock]
    exact h3

end AddBlock

section Terminate

variable {b : BlockId} {t : Terminator}

theorem known_terminate {c : BlockId} {v : ValueId} (h : f.Known A c v) :
    (f.terminate b t).Known A c v := by
  unfold Known Local
  rw [slots_terminate, body_terminate]
  exact h

theorem edge_terminate (hb : f.HasBlock b) (ho : f.exit b = none) {c c' : BlockId} :
    (f.terminate b t).Edge c c' ↔ f.Edge c c' ∨ c = b ∧ c' ∈ t.successors := by
  unfold Edge
  rw [exit_terminate t hb]
  by_cases hc : c = b
  · subst hc
    simp [ho]
  · simp [hc]

/-- An open block may be ended if the targets ask for no more than is available at its end. None of
them may have a phi yet, as it would lack an arm. -/
theorem terminate (hf : f.Flow A) (hb : f.HasBlock b) (ho : f.exit b = none)
    (hu : ∀ u ∈ t.uses, f.Known A b u)
    (hs : ∀ c ∈ t.successors, f.HasBlock c ∧ c ≠ entry ∧ f.PhiFree c ∧
      ∀ v, A c v → f.Local A b v) :
    (f.terminate b t).Flow A where
  shaped := shaped_terminate t hf.shaped
  params := hf.params
  placed := by
    intro c v hv
    rw [body_terminate] at hv
    exact hf.placed hv
  nodup := by
    intro c
    rw [body_terminate]
    exact hf.nodup c
  once := by
    intro c c' v hv hv'
    rw [body_terminate] at hv hv'
    exact hf.once hv hv'
  slot := by
    intro v hv
    rw [slots_terminate] at hv
    exact hf.slot hv
  slots_nodup := by
    rw [slots_terminate]
    exact hf.slots_nodup
  slot_apart := by
    intro c v hv
    rw [slots_terminate] at hv
    rw [body_terminate]
    exact hf.slot_apart hv
  head := by
    intro c v hv
    simp only [body_terminate]
    exact hf.head hv
  entry_head := hf.entry_head
  ordered := by
    intro c before v after e hc he u hu'
    rw [body_terminate] at hc
    rw [slots_terminate]
    exact hf.ordered hc he u hu'
  arms := by
    intro c v e hv he arm harm
    rw [body_terminate] at hv
    exact known_terminate (hf.arms hv he arm harm)
  phis := by
    intro c v e incoming hv he hi
    rw [body_terminate] at hv
    obtain ⟨h1, h2⟩ := hf.phis hv he hi
    refine ⟨h1, ?_⟩
    intro c'
    rw [h2, edge_terminate hb ho]
    refine ⟨.inl, ?_⟩
    rintro (h | ⟨-, h⟩)
    · exact h
    · exact absurd hi ((hs c h).2.2.1 v hv e he incoming)
  leave := by
    intro c t' ht
    rw [exit_terminate t hb] at ht
    unfold Local
    rw [body_terminate]
    split at ht
    · next hcb =>
      subst hcb
      obtain rfl : t = t' := by simpa using ht
      refine ⟨fun u h => known_terminate (hu u h), ?_⟩
      intro c' hc'
      obtain ⟨h1, h2, -, h4⟩ := hs c' hc'
      exact ⟨(hasBlock_terminate t).mpr h1, h2, h4⟩
    · obtain ⟨hu', hs'⟩ := hf.leave ht
      refine ⟨fun u h => known_terminate (hu' u h), ?_⟩
      intro c' hc'
      obtain ⟨h1, h2, h3⟩ := hs' c' hc'
      exact ⟨(hasBlock_terminate t).mpr h1, h2, h3⟩

end Terminate

/-! ## Bodies that keep to the rules are valid -/

section Valid

/-- The number of stack slots in front of the body of a block. -/
def offset (f : Function) (b : BlockId) : Nat := if b.index = 0 then f.slots.length else 0

theorem instAt_body {b : BlockId} {before after : List ValueId} {v : ValueId}
    (h : f.body b = before ++ v :: after) : f.InstAt b (offset f b + before.length) v := by
  have hb : f.HasBlock b := hasBlock_of_mem_body (mem_of_split h)
  obtain ⟨block, hblock⟩ := hb.exists_block
  refine ⟨block, hblock, ?_⟩
  rw [← Array.getElem?_toList, insts_eq hblock, h]
  unfold offset
  split <;> simp

theorem instAt_slot (hf : f.Flow A) {v : ValueId} (h : v ∈ f.slots) :
    ∃ i < f.slots.length, f.InstAt entry i v := by
  obtain ⟨i, hi, rfl⟩ := List.getElem_of_mem h
  obtain ⟨block, hblock, -⟩ := hf.shaped.exists_first
  refine ⟨i, hi, block, hblock, ?_⟩
  rw [← Array.getElem?_toList, insts_eq (b := entry) hblock]
  simp [entry, List.getElem?_append_left hi]

theorem exists_instAt_of_body {b : BlockId} {v : ValueId} (h : v ∈ f.body b) :
    ∃ i, f.InstAt b i v := by
  obtain ⟨before, after, h⟩ := List.append_of_mem h
  exact ⟨_, instAt_body h⟩

/-- What stands in a block is a stack slot of the entry block or an instruction of the body. -/
theorem split_of_instAt {b : BlockId} {i : Nat} {v : ValueId} (h : f.InstAt b i v) :
    (b = entry ∧ f.slots[i]? = some v) ∨
      ∃ before after, f.body b = before ++ v :: after ∧ i = offset f b + before.length := by
  obtain ⟨block, hblock, hi⟩ := h
  rw [← Array.getElem?_toList, insts_eq hblock, List.getElem?_append] at hi
  have hlen : (if b.index = 0 then f.slots else []).length = offset f b := by
    unfold offset
    split <;> rfl
  rw [hlen] at hi
  split at hi
  · next hlt =>
    unfold offset at hlt
    by_cases hb : b.index = 0
    · rw [if_pos hb] at hi
      exact .inl ⟨by cases b; simp_all [entry], hi⟩
    · simp [hb] at hlt
  · next hge =>
    obtain ⟨hlt, hv⟩ := List.getElem?_eq_some_iff.mp hi
    refine .inr ⟨(f.body b).take (i - offset f b), (f.body b).drop (i - offset f b + 1), ?_, ?_⟩
    · rw [← hv, ← List.drop_eq_getElem_cons hlt, List.take_append_drop]
    · rw [List.length_take, Nat.min_eq_left (Nat.le_of_lt hlt)]
      omega

theorem index_unique {l : List ValueId} {i j : Nat} {v : ValueId} (hl : l.Nodup)
    (hi : l[i]? = some v) (hj : l[j]? = some v) : i = j := by
  obtain ⟨hi', rfl⟩ := List.getElem?_eq_some_iff.mp hi
  obtain ⟨hj', hv⟩ := List.getElem?_eq_some_iff.mp hj
  exact (hl.getElem_inj_iff).mp hv.symm

/-- What is available at the head of a block is defined on every walk to it. -/
theorem head_on_walk (hf : f.Flow A) {b : BlockId} {path : List BlockId} (h : f.Walk b path)
    {v : ValueId} (hv : A b v) : ∃ c ∈ path, v ∈ f.body c := by
  induction h with
  | start => exact absurd hv (hf.entry_head v)
  | step hw he ih =>
    obtain ⟨t, ht, hc⟩ := he
    rcases ((hf.leave ht).2 _ hc).2.2 v hv with h | h
    · obtain ⟨c, hmem, hbody⟩ := ih h
      exact ⟨c, List.mem_cons_of_mem _ hmem, hbody⟩
    · exact ⟨_, List.mem_cons_of_mem _ hw.mem, h⟩

theorem dominates_of_head (hf : f.Flow A) {b c : BlockId} {v : ValueId} (hv : A b v)
    (hc : v ∈ f.body c) : f.Dominates c b := by
  intro path hw
  obtain ⟨c', hmem, hc'⟩ := hf.head_on_walk hw hv
  rw [hf.once hc hc']
  exact hmem

theorem dominatesEnd_of_known (hf : f.Flow A) {b : BlockId} {v : ValueId} (h : f.Known A b v) :
    f.DominatesEnd v b := by
  rcases h with h | h | h | h
  · exact .inl h
  · obtain ⟨i, -, hi⟩ := hf.instAt_slot h
    exact .inr ⟨entry, i, hi, f.entry_dominates b⟩
  · obtain ⟨c, hc⟩ := (hf.head h).2
    obtain ⟨i, hi⟩ := exists_instAt_of_body hc
    exact .inr ⟨c, i, hi, hf.dominates_of_head h hc⟩
  · obtain ⟨i, hi⟩ := exists_instAt_of_body h
    exact .inr ⟨b, i, hi, f.dominates_self b⟩

theorem dominatesInst_of_ordered (hf : f.Flow A) {b : BlockId} {before after : List ValueId}
    {v : ValueId} {d : Definition} (hb : f.body b = before ++ v :: after)
    (hd : f.definition? v = some d) {u : ValueId} (hu : u ∈ d.op.uses) :
    f.DominatesInst u b (offset f b + before.length) := by
  rcases hf.ordered hb hd u hu with h | h | h | h
  · exact .inl h
  · obtain ⟨i, hlt, hi⟩ := hf.instAt_slot h
    refine .inr ⟨entry, i, hi, ?_⟩
    by_cases he : entry = b
    · subst he
      exact .inl ⟨rfl, by simp only [offset, entry, if_true]; omega⟩
    · exact .inr ⟨he, f.entry_dominates b⟩
  · obtain ⟨hn, c, hc⟩ := hf.head h
    obtain ⟨i, hi⟩ := exists_instAt_of_body hc
    exact .inr ⟨c, i, hi, .inr ⟨fun e => hn (e ▸ hc), hf.dominates_of_head h hc⟩⟩
  · obtain ⟨before', after', h⟩ := List.append_of_mem h
    have hb' : f.body b = before' ++ u :: (after' ++ v :: after) := by rw [hb, h]; simp
    refine .inr ⟨b, _, instAt_body hb', .inl ⟨rfl, ?_⟩⟩
    rw [h]
    simp

theorem single (hf : f.Flow A) {v : ValueId} {b c : BlockId} {i j : Nat} (hi : f.InstAt b i v)
    (hj : f.InstAt c j v) : b = c ∧ i = j := by
  rcases split_of_instAt hi with ⟨rfl, hs⟩ | ⟨before, after, hb, rfl⟩
  · rcases split_of_instAt hj with ⟨rfl, hs'⟩ | ⟨before, after, hc, rfl⟩
    · exact ⟨rfl, index_unique hf.slots_nodup hs hs'⟩
    · exact absurd (mem_of_split hc) (hf.slot_apart (List.mem_of_getElem? hs))
  · rcases split_of_instAt hj with ⟨rfl, hs'⟩ | ⟨before', after', hc, rfl⟩
    · exact absurd (mem_of_split hb) (hf.slot_apart (List.mem_of_getElem? hs'))
    · obtain rfl : b = c := hf.once (mem_of_split hb) (mem_of_split hc)
      have h1 : (f.body b)[before.length]? = some v := by rw [hb]; simp
      have h2 : (f.body b)[before'.length]? = some v := by rw [hc]; simp
      rw [index_unique (hf.nodup b) h1 h2]
      exact ⟨rfl, rfl⟩

theorem operand_in_range (hf : f.Flow A) {b : BlockId} {u : ValueId} (h : f.Known A b u) :
    u.index < f.values.size ∧ (f.values.size ≤ 0xFFFFFFFF → u.isAbsent = false) := by
  have hlt := hf.index_lt_of_known h
  refine ⟨hlt, fun hs => ?_⟩
  simp only [Handle.isAbsent, beq_eq_false_iff_ne]
  omega

theorem uses_known (hf : f.Flow A) {b : BlockId} {before after : List ValueId} {v : ValueId}
    {d : Definition} (hb : f.body b = before ++ v :: after) (hd : f.definition? v = some d)
    {u : ValueId} (hu : u ∈ d.op.uses) : f.Known A b u := by
  rcases hf.ordered hb hd u hu with h | h | h | h
  · exact .inl h
  · exact .inr (.inl h)
  · exact .inr (.inr (.inl h))
  · exact .inr (.inr (.inr (by rw [hb]; exact List.mem_append_left _ h)))

/-- Stack slots read nothing, so whatever reads stands in a body. -/
theorem body_of_reading (hf : f.Flow A) {b : BlockId} {i : Nat} {v : ValueId} {d : Definition}
    (hi : f.InstAt b i v) (hd : f.definition? v = some d) (h : ∀ t, d.op ≠ .alloca t) :
    ∃ before after, f.body b = before ++ v :: after ∧ i = offset f b + before.length := by
  rcases split_of_instAt hi with ⟨-, hs⟩ | h'
  · obtain ⟨t, ht⟩ := hf.slot (List.mem_of_getElem? hs)
    rw [hd] at ht
    exact absurd (congrArg Definition.op (Option.some.inj ht)) (h t)
  · exact h'

theorem valid (hf : f.Flow A) : f.Valid where
  single := hf.single
  defined := by
    intro b i v hi
    rcases split_of_instAt hi with ⟨-, hs⟩ | ⟨before, after, hb, -⟩
    · obtain ⟨t, ht⟩ := hf.slot (List.mem_of_getElem? hs)
      exact ⟨_, ht⟩
    · exact ⟨_, Array.getElem?_eq_getElem (hf.placed (mem_of_split hb)).2⟩
  operands := by
    intro b i v d hi hd u hu
    obtain ⟨before, after, hb, -⟩ := hf.body_of_reading hi hd fun t ht => by
      rw [ht] at hu
      cases hu
    rcases List.mem_append.mp hu with hu | hu
    · exact hf.operand_in_range (hf.uses_known hb hd hu)
    · obtain ⟨arm, harm, rfl⟩ := List.mem_map.mp hu
      exact hf.operand_in_range (hf.arms (mem_of_split hb) hd arm harm)
  exit_operands := by
    intro b t ht u hu
    exact hf.operand_in_range ((hf.leave ht).1 u hu)
  targets := by
    intro b t ht c hc
    exact ((hf.leave ht).2 c hc).1
  uses := by
    intro b i v d hi hd _ u hu
    obtain ⟨before, after, hb, rfl⟩ := hf.body_of_reading hi hd fun t ht => by
      rw [ht] at hu
      cases hu
    exact hf.dominatesInst_of_ordered hb hd hu
  exit_uses := by
    intro b t ht _ u hu
    exact hf.dominatesEnd_of_known ((hf.leave ht).1 u hu)
  arms := by
    intro b i v d hi hd _ arm harm
    obtain ⟨before, after, hb, -⟩ := hf.body_of_reading hi hd fun t ht => by
      rw [ht] at harm
      cases harm
    exact hf.dominatesEnd_of_known (hf.arms (mem_of_split hb) hd arm harm)
  predecessors := by
    intro b i v d incoming hi hd hop
    obtain ⟨before, after, hb, -⟩ := hf.body_of_reading hi hd fun t ht => by
      rw [hop] at ht
      cases ht
    exact hf.phis (mem_of_split hb) hd hop
  entry_free := by
    rintro b ⟨t, ht, hc⟩
    exact ((hf.leave ht).2 _ hc).2.1 rfl

end Valid

end Flow

end Function

end TypedLowering.Ssa
