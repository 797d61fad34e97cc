import TypedLowering.Proofs.Simulation.Expression

/-!
Variables of the fragment in generated code. A layout lists the variables in scope with the operands
or stack slots that their names stand for, in the order of the store. No two variables share a slot,
so that a store to one of them leaves the others as they are.
-/
namespace TypedLowering
set_option autoImplicit false
open Ssa Ssa.Function

/-! ## Layouts -/

/-- The variables in scope with what their names stand for, the newest first. -/
abbrev Layout := List (String × Binding StaticType)

def Binding.slot? : Binding StaticType → Option ValueId
  | .constant _ _ => none
  | .slot ptr _ _ => some ptr

namespace Layout

/-- The variables of the store have the names and types of the layout. -/
def Fits (L : Layout) (σ : Store) : Prop :=
  List.Forall₂ (fun b v => b.1 = v.1 ∧ b.2.toValue.type = v.2.type) L σ

/-- What the layout stands for when the variables hold what they hold in the store. -/
def facts (L : Layout) (σ : Store) : Facts := List.zipWith (fun b v => (b.2.toValue, v.2)) L σ

def slots (L : Layout) : List ValueId := L.filterMap (·.2.slot?)

variable {L L' : Layout} {σ σ' : Store} {name : String} {c c' : Word}

theorem Fits.length_eq (h : L.Fits σ) : L.length = σ.length := List.Forall₂.length_eq h

theorem Fits.exists_mem (h : L.Fits σ) {p : Value × Word} (hp : p ∈ L.facts σ) :
    ∃ b ∈ L, p.1 = b.2.toValue ∧ p.1.type = p.2.type := by
  induction h with
  | nil => cases hp
  | @cons b v L σ hbv _ ih =>
    rcases List.mem_cons.mp hp with rfl | hp
    · exact ⟨b, List.mem_cons_self, rfl, hbv.2⟩
    · obtain ⟨b', hb', h⟩ := ih hp
      exact ⟨b', List.mem_cons_of_mem b hb', h⟩

/-- A variable of the store is in the layout. -/
theorem Fits.exists_lookup (h : L.Fits σ) (hc : σ.get? name = some c) :
    ∃ b, L.lookup name = some b ∧ (b.toValue, c) ∈ L.facts σ := by
  induction h with
  | nil => cases hc
  | @cons b v L σ hbv _ ih =>
    rw [Store.get?] at hc
    by_cases hn : v.1 = name
    · rw [if_pos hn] at hc
      cases hc
      refine ⟨b.2, ?_, List.mem_cons_self⟩
      rw [List.lookup_cons, hbv.1, hn, beq_self_eq_true]
    · rw [if_neg hn] at hc
      obtain ⟨b', hb', hin⟩ := ih hc
      refine ⟨b', ?_, List.mem_cons_of_mem _ hin⟩
      rw [List.lookup_cons, hbv.1, beq_eq_false_iff_ne.mpr (Ne.symm hn)]
      exact hb'

theorem mem_slots {b : Binding StaticType} {ptr : ValueId} (hl : L.lookup name = some b)
    (hb : b.slot? = some ptr) : ptr ∈ L.slots := by
  obtain ⟨l₁, l₂, rfl, -⟩ := List.lookup_eq_some_iff.mp hl
  exact List.mem_filterMap.mpr ⟨(name, b), by simp, hb⟩

/-- A variable may get another value of its type. -/
theorem Fits.set (h : L.Fits σ) {b : Binding StaticType} (hl : L.lookup name = some b)
    (ht : b.toValue.type = c'.type) : L.Fits (σ.set name c') := by
  induction h with
  | nil => cases hl
  | @cons p v L σ hbv htail ih =>
    rw [List.lookup_cons] at hl
    rw [Store.set]
    by_cases hn : v.1 = name
    · rw [hbv.1, hn, beq_self_eq_true] at hl
      cases hl
      rw [if_pos hn]
      exact .cons ⟨hbv.1, ht⟩ htail
    · rw [hbv.1, beq_eq_false_iff_ne.mpr (Ne.symm hn)] at hl
      rw [if_neg hn]
      exact .cons hbv (ih hl)

/-! ### Leaving a scope -/

theorem Fits.keep (h : L'.Fits σ') (hs : L <:+ L') : L.Fits (σ'.keep L.length) := by
  obtain ⟨l, rfl⟩ := hs
  have hd := List.forall₂_drop l.length h
  rw [List.drop_left] at hd
  rw [Store.keep, ← h.length_eq, List.length_append, Nat.add_sub_cancel]
  exact hd

theorem Fits.facts_keep (h : L'.Fits σ') (hs : L <:+ L') :
    L.facts (σ'.keep L.length) ⊆ L'.facts σ' := by
  obtain ⟨l, rfl⟩ := hs
  have hd : L.facts (σ'.keep L.length) = (facts (l ++ L) σ').drop l.length := by
    rw [Store.keep, ← h.length_eq, List.length_append, Nat.add_sub_cancel, facts, facts,
      List.drop_zipWith, List.drop_left]
  rw [hd]
  exact List.drop_subset _ _

/-- Nothing is left out of a layout that is as long as the store. -/
theorem Fits.eq_of_suffix (h : L.Fits σ) (h' : L'.Fits σ') (hs : L <:+ L')
    (hl : σ'.length = σ.length) : L' = L := by
  refine (hs.eq_of_length ?_).symm
  rw [h.length_eq, h'.length_eq, hl]

end Layout

theorem Store.length_set (σ : Store) (name : String) (w : Word) :
    (σ.set name w).length = σ.length := by
  induction σ with
  | nil => rfl
  | cons v σ ih =>
    rw [Store.set]
    split <;> simp [ih]

/-! ## Layouts of worlds -/

/-- The variables are in scope as the layout says, and the function returns a word or nothing. -/
structure World.Lays (w : World) (L : Layout) : Prop where
  scope : ∀ {name b}, L.lookup name = some b → w.frame.scope.get? name = some b
  has : ∀ b ∈ L, w.Has b.2.value
  slots : L.slots.Nodup
  ret : w.frame.returnType = .void ∨ w.frame.returnType.isWord = true

namespace World.Lays

variable {w x : World} {L L' : Layout} {σ : Store} {name : String}

theorem inherits (h : w.Lays L) (hi : w.Inherits x) : x.Lays L where
  scope := by
    rw [hi.scope]
    exact h.scope
  has := fun b hb => hi.has (h.has b hb)
  slots := h.slots
  ret := by
    rw [hi.ret]
    exact h.ret

theorem offers (h : w.Lays L) (hf : L.Fits σ) : w.Offers (L.facts σ) := by
  intro p hp
  obtain ⟨b, hb, he, ht⟩ := hf.exists_mem hp
  have hhas := h.has b hb
  refine ⟨?_, ht, ?_⟩
  · rw [he]
    rcases b with ⟨name, v | ⟨ptr, lowered⟩⟩
    · exact holds_rvalue.mpr hhas
    · simpa [Binding.toValue, holds_assignable, Place.operands, Binding.value] using hhas
  · rw [he]
    rcases b with ⟨name, v | ⟨ptr, lowered⟩⟩ <;> rfl

theorem lists (h : w.Lays L) (hf : L.Fits σ) : w.frame.scope.Lists σ (L.facts σ) := by
  intro name c hc
  obtain ⟨b, hb, hin⟩ := hf.exists_lookup hc
  exact ⟨b, h.scope hb, hin⟩

/-- A new name. -/
theorem bind (h : w.Lays L) (hl : w.Later x) {b : Binding StaticType}
    (hs : x.frame.scope = w.frame.scope.insert name b) (hb : x.Has b.value)
    (hnew : ∀ ptr, b.slot? = some ptr → w.fn.values.size ≤ ptr.index) :
    x.Lays ((name, b) :: L) where
  scope := by
    intro name' b' hl'
    rw [hs]
    rw [List.lookup_cons] at hl'
    by_cases hn : name' = name
    · subst hn
      rw [beq_self_eq_true] at hl'
      cases hl'
      exact Dict.get?_insert_self _ _ _
    · rw [beq_eq_false_iff_ne.mpr hn] at hl'
      rw [Dict.get?_insert_of_ne _ _ (Ne.symm hn)]
      exact h.scope hl'
  has := by
    intro b' hb'
    rcases List.mem_cons.mp hb' with rfl | hb'
    · exact hb
    · exact hl.has (h.has b' hb')
  slots := by
    rw [Layout.slots, List.filterMap_cons]
    cases hslot : b.slot? with
    | none => exact h.slots
    | some ptr =>
      refine List.nodup_cons.mpr ⟨fun hin => ?_, h.slots⟩
      obtain ⟨⟨name', b'⟩, hb', hp⟩ := List.mem_filterMap.mp hin
      have hhas := h.has _ hb'
      cases b' with
      | constant v t => cases hp
      | slot ptr' lowered t =>
        cases hp
        exact Nat.lt_irrefl _ (Nat.lt_of_lt_of_le (w.flow.index_lt_of_known hhas) (hnew ptr hslot))
  ret := by
    rw [hl.ret_eq]
    exact h.ret

end World.Lays

/-! ## Stores -/

namespace Ssa.Function

variable {F : Function} {a a' : Activation} {b : Binding StaticType} {ptr : ValueId} {i : Nat}
  {c c' : Word}

/-- A store to the slot of one variable leaves another one as it is. -/
theorem Denotes.of_ne (h : F.Denotes a c b.toValue) (hb : b.slot? ≠ some ptr)
    (hi : F.slots[i]? = some ptr) (hr : a'.registers = a.registers)
    (hm : a'.memory = a.memory.set i (some (.word c'))) : F.Denotes a' c b.toValue := by
  cases b with
  | constant v t => exact (congrFun hr v).trans h
  | slot ptr' lowered t =>
    obtain ⟨j, hj, hmem⟩ := h
    have hne : i ≠ j := by
      rintro rfl
      exact hb (hj.symm.trans hi)
    refine ⟨j, hj, ?_⟩
    rw [hm, List.getElem?_set_ne hne]
    exact hmem

theorem Knows.set {L : Layout} {σ : Store} {name : String} (hk : F.Knows a (L.facts σ))
    (hf : L.Fits σ) (hn : L.slots.Nodup) (hl : L.lookup name = some b) (hb : b.slot? = some ptr)
    (hi : F.slots[i]? = some ptr) (hlt : i < a.memory.length) (hr : a'.registers = a.registers)
    (hm : a'.memory = a.memory.set i (some (.word c'))) :
    F.Knows a' (L.facts (σ.set name c')) := by
  induction hf with
  | nil => cases hl
  | @cons p v L σ hpv htail ih =>
    obtain ⟨hhead, htl⟩ := List.forall_mem_cons.mp hk
    rw [List.lookup_cons] at hl
    rw [Store.set]
    by_cases hv : v.1 = name
    · rw [hpv.1, hv, beq_self_eq_true] at hl
      obtain rfl := Option.some.inj hl
      rw [if_pos hv]
      have hnot : ptr ∉ Layout.slots L := by
        rw [Layout.slots, List.filterMap_cons, hb] at hn
        exact (List.nodup_cons.mp hn).1
      refine List.forall_mem_cons.mpr ⟨?_, fun q hq => ?_⟩
      · rcases p with ⟨x, w | ⟨ptr', lowered⟩⟩
        · cases hb
        · cases hb
          exact ⟨i, hi, by rw [hm, List.getElem?_set_self hlt]⟩
      · obtain ⟨b', hb', he, -⟩ := Layout.Fits.exists_mem htail hq
        have hd := htl q hq
        rw [he] at hd ⊢
        refine hd.of_ne (fun hs => hnot ?_) hi hr hm
        exact List.mem_filterMap.mpr ⟨b', hb', hs⟩
    · rw [hpv.1, beq_eq_false_iff_ne.mpr (Ne.symm hv)] at hl
      rw [if_neg hv]
      have hin := Layout.mem_slots hl hb
      have hne : p.2.slot? ≠ some ptr := by
        intro hs
        rw [Layout.slots, List.filterMap_cons, hs] at hn
        exact (List.nodup_cons.mp hn).1 hin
      have hntail : (Layout.slots L).Nodup := by
        rw [Layout.slots, List.filterMap_cons] at hn
        cases hs : p.2.slot? with
        | none =>
          rw [hs] at hn
          exact hn
        | some q =>
          rw [hs] at hn
          exact (List.nodup_cons.mp hn).2
      refine List.forall_mem_cons.mpr ⟨?_, ih htl hntail hl⟩
      exact Denotes.of_ne hhead hne hi hr hm

end Ssa.Function

namespace Gen

variable {α β : Type} {env : Env} {generate : Generate} {w : Site} {facts : Facts} {L : Layout}
  {σ σ' : Store} {name : String} {v : ValueId} {t : StaticType} {c c' : Word} {span : Span}

/-- The code of `m` runs through wherever `facts` are known, and turns the variables from those of
one store to those of another. -/
def Steers (env : Env) (w : Site) (facts : Facts) (L : Layout) (σ : Store) (m : Gen α)
    (σ' : Store) : Prop :=
  w.Offers facts → w.Lays L → L.Fits σ → L.facts σ ⊆ facts → ∀ r s, m env w.state = .ok r s →
    ∃ (x : Site) (L' : Layout), x.state = s ∧ w.Later x.toWorld ∧ L <:+ L' ∧ x.Lays L' ∧
      L'.Fits σ' ∧ ∀ F : Function, F.Completes x.fn → ∀ a, F.At w.toWorld a → F.Knows a facts →
        ∃ a', F.Steps (.running a) (.running a') ∧ F.At x.toWorld a' ∧ F.Knows a' (L'.facts σ') ∧
          ∀ u : ValueId, u.index < w.fn.values.size → a'.registers u = a.registers u

/-- What is computed first. -/
theorem Performs.steers {m : Gen α} {k : α → Gen β} {f : α → Facts}
    (hm : Performs env w facts m f)
    (hk : ∀ r (x : Site), w ≤ x → Steers env x (f r ++ facts) L σ (k r) σ') :
    Steers env w facts L σ (m >>= k) σ' := by
  intro ho hlays hfits hsub r s h
  obtain ⟨q, s₁, h₁, h⟩ := bind_ok h
  obtain ⟨x, rfl, hwx, hox, hrun⟩ := hm ho q s₁ h₁
  have hoff : x.Offers (f q ++ facts) := hox.append (ho.later (Site.later hwx))
  obtain ⟨y, L', hy, hxy, hs, hlays', hfits', hrun'⟩ := hk q x hwx hoff
    (hlays.inherits (.of_le hwx)) hfits (fun p hp => List.mem_append_right _ (hsub hp)) r s h
  refine ⟨y, L', hy, (Site.later hwx).trans hxy, hs, hlays', hfits', ?_⟩
  intro F hF a ha hknow
  obtain ⟨a₁, hr₁, hk₁⟩ := hrun F (hF.trans hxy.completes) a ha hknow
  have hall : F.Knows a₁ (f q ++ facts) :=
    List.forall_mem_append.mpr ⟨hk₁, hr₁.knows ho hknow⟩
  obtain ⟨a₂, hsteps, hat, hk₂, hreg⟩ := hrun' F hF a₁ hr₁.stands hall
  refine ⟨a₂, hr₁.steps.trans hsteps, hat, hk₂, fun u hu => ?_⟩
  exact (hreg u (Nat.lt_of_lt_of_le hu (Site.size_values hwx))).trans (hr₁.registers u hu)

/-- A result that is made without further code. -/
theorem Steers.finish {m : Gen α} {k : α → Gen β} (hm : Steers env w facts L σ m σ')
    (hk : ∀ r, ∃ b, k r = pure b) : Steers env w facts L σ (m >>= k) σ' := by
  intro ho hlays hfits hsub r s h
  obtain ⟨q, s₁, h₁, h⟩ := bind_ok h
  obtain ⟨b, hb⟩ := hk q
  rw [hb] at h
  obtain ⟨-, rfl⟩ := pure_ok h
  exact hm ho hlays hfits hsub q s h₁

/-! ### One variable -/

theorem emitStore_runs {ptr : ValueId} {u : Unit} {s : GenState} (hv : w.Has v) (hp : w.Has ptr)
    (h : emitStore v ptr env w.state = .ok u s) : ∃ x : Site, x.state = s ∧ w ≤ x ∧
      ∀ F : Function, F.Completes x.fn → ∀ a (i : Nat), F.At w.toWorld a →
        F.slots[i]? = some ptr → a.registers v = some (.word c) → ∃ a',
          F.Steps (.running a) (.running a') ∧ F.At x.toWorld a' ∧ a'.registers = a.registers ∧
          a'.memory = a.memory.set i (some (.word c)) ∧ i < a.memory.length := by
  obtain ⟨r, s₁, h₁, h⟩ := bind_ok h
  obtain ⟨x, rfl, hwx, -, -, hfn, hblock⟩ := emit_appends (by simp [hv, hp]) r s₁ h₁
  obtain ⟨-, rfl⟩ := pure_ok h
  refine ⟨x, rfl, hwx, ?_⟩
  intro F hF a i ha hi hreg
  obtain ⟨rest, hrest, hdef, hbody⟩ := ha.next hfn hblock hF
  have hlt : i < a.memory.length := by
    rw [ha.memory]
    exact (List.getElem?_eq_some_iff.mp hi).1
  have hcell : { a with rest }.cell? ptr = some i := by simp [Activation.cell?, ha.cells hi]
  refine ⟨{ a with rest, memory := a.memory.set i (some (.word c)) }, .single
    (step_inst hrest hdef ?_), ?_, rfl, rfl, hlt⟩
  · simp [Definition.store, Activation.perform, hcell, hreg, hlt]
  · exact {
      cells := ha.cells
      memory := by simpa using ha.memory
      block := ha.block.trans hblock.symm
      rest := hbody }

theorem store_steers {ptr : ValueId} {lowered : Ty} {t' : StaticType}
    (hl : L.lookup name = some (.slot ptr lowered t)) (hc : σ.get? name = some c)
    (ht : t = c'.type) (hv : (.rvalue v t', c') ∈ facts) :
    Steers env w facts L σ (store ⟨.slot ptr lowered, t⟩ v span) (σ.set name c') := by
  intro ho hlays hfits hsub u s h
  obtain ⟨b, hb, hin⟩ := hfits.exists_lookup hc
  obtain rfl := Option.some.inj (hl.symm.trans hb)
  have hp : w.Has ptr := by
    have hh := (ho _ (hsub hin)).1
    simpa [Binding.toValue, World.holds_assignable, Place.operands] using hh
  obtain ⟨x, rfl, hwx, hrun⟩ :=
    emitStore_runs (c := c') (World.holds_rvalue.mp (ho _ hv).1) hp h
  refine ⟨x, L, rfl, Site.later hwx, List.suffix_refl L, hlays.inherits (.of_le hwx),
    hfits.set hl ht, ?_⟩
  intro F hF a ha hk
  obtain ⟨i, hi, -⟩ := hk _ (hsub hin)
  obtain ⟨a', hsteps, hat, hreg, hmem, hlt⟩ := hrun F hF a i ha hi (hk _ hv)
  have hknow : F.Knows a (L.facts σ) := fun p hp => hk p (hsub hp)
  exact ⟨a', hsteps, hat, hknow.set hfits hlays.slots hl rfl hi hlt hreg hmem,
    fun u _ => congrFun hreg u⟩

/-- An assignment to a variable, which has to be of its type. -/
theorem assign_steers {ptr : ValueId} {lowered : Ty} {value : Value}
    (hl : L.lookup name = some (.slot ptr lowered t)) (hc : σ.get? name = some c)
    (hv : (value, c') ∈ facts) :
    Steers env w facts L σ (assign ⟨.slot ptr lowered, t⟩ value span) (σ.set name c') := by
  intro ho hlays hfits hsub r s h
  obtain ⟨b, hb, hin⟩ := hfits.exists_lookup hc
  obtain rfl := Option.some.inj (hl.symm.trans hb)
  have ht : t.isWord = true := by
    rw [show t = c.type from (ho _ (hsub hin)).2.1]
    exact c.isWord_type
  obtain ⟨q, s₁, h₁, -⟩ := bind_ok h
  obtain rfl : t = c'.type := type_eq_of_castOperand (ho _ hv).2.1 ht h₁
  have hall : Steers env w facts L σ (assign ⟨.slot ptr lowered, c'.type⟩ value span)
      (σ.set name c') := by
    refine (castOperand_performs hv).steers fun q x hx => ?_
    refine (store_steers hl hc rfl List.mem_cons_self).finish fun _ => ?_
    exact ⟨_, valueOf_word ht⟩
  exact hall ho hlays hfits hsub r s h

/-- A variable with a stack slot comes into scope. -/
theorem bindLocal_steers {t' : StaticType} (ht : t = c.type) (hv : (.rvalue v t', c) ∈ facts) :
    Steers env w facts L σ (bindLocal name v t span) ((name, c) :: σ) := by
  intro ho hlays hfits hsub u s h
  obtain ⟨lowered, s₁, h₁, h⟩ := bind_ok h
  obtain ⟨-, rfl⟩ := ofExcept_ok h₁
  obtain ⟨slot, s₂, h₂, h⟩ := bind_ok h
  obtain ⟨x, rfl, hwx, hslot, rfl, hfn, hblock⟩ := emitSlot_spec slot s₂ h₂
  have hvalue : x.Has v := Site.has hwx (World.holds_rvalue.mp (ho _ hv).1)
  obtain ⟨u₁, s₃, h₃, h⟩ := bind_ok h
  obtain ⟨y, rfl, hxy, hrun⟩ := emitStore_runs (c := c) hvalue hslot h₃
  obtain ⟨z, hz, hyz, hmoves⟩ := exists_bound y name (.slot w.fn.nextValue lowered t)
    (Site.has hxy hslot)
  have hwy : w ≤ y := hwx.trans hxy
  have hwz := (Site.later hwy).trans hyz
  have hscope : z.frame.scope = w.frame.scope.insert name (.slot w.fn.nextValue lowered t) := by
    rw [← World.scope_eq hwy, show z.frame = _ from congrArg (·.frame) hz]
    rfl
  have hlaysz : z.Lays ((name, .slot w.fn.nextValue lowered t) :: L) := by
    refine hlays.bind hwz hscope (hyz.has (Site.has hxy hslot)) fun ptr hp => ?_
    cases hp
    exact Nat.le_refl _
  refine ⟨z, _, by rw [hz]; cases h; rfl, hwz, List.suffix_cons _ _, hlaysz,
    .cons ⟨rfl, ht⟩ hfits, ?_⟩
  intro F hF a ha hk
  have hFy : F.Completes y.fn := hF.trans hyz.completes
  have hFx : F.Completes x.fn := hFy.trans (Site.later hxy).completes
  have hat : F.At x.toWorld a := {
    toReady := ha.toReady
    block := ha.block.trans hblock.symm
    rest := by
      rw [hfn, hblock, body_addSlot _ w.flow.shaped]
      exact ha.rest }
  -- the cell of the new slot comes right behind those that were there
  have hi : F.slots[w.fn.slots.length]? = some w.fn.nextValue := by
    have hslots : x.fn.slots = w.fn.slots ++ [w.fn.nextValue] := by
      rw [hfn, slots_addSlot _ w.flow.shaped]
    obtain ⟨more, hmore⟩ := hFx.slots
    rw [← hmore, hslots]
    simp
  obtain ⟨a', hsteps, hat', hreg, hmem, hlt⟩ := hrun F hFy a _ hat hi (hk _ hv)
  have hnot : w.fn.nextValue ∉ L.slots := (List.nodup_cons.mp hlaysz.slots).1
  refine ⟨a', hsteps, hat'.moves hmoves, List.forall_mem_cons.mpr ⟨?_, fun p hp => ?_⟩,
    fun u _ => congrFun hreg u⟩
  · exact ⟨_, hi, by rw [hmem, List.getElem?_set_self hlt]⟩
  · obtain ⟨b, hb, he, -⟩ := hfits.exists_mem hp
    have hd := hk p (hsub hp)
    rw [he] at hd ⊢
    exact hd.of_ne (fun hs => hnot (List.mem_filterMap.mpr ⟨b, hb, hs⟩)) hi hreg hmem

/-- A constant comes into scope. -/
theorem bindConstant_steers {t' : StaticType} (ht : t = c.type)
    (hv : (.rvalue v t', c) ∈ facts) :
    Steers env w facts L σ (modifyFrame fun f => { f with scope := f.scope.bindConstant name v t })
      ((name, c) :: σ) := by
  intro ho hlays hfits hsub u s h
  have hvalue : w.Has v := World.holds_rvalue.mp (ho _ hv).1
  obtain ⟨z, hz, hwz, hmoves⟩ := exists_bound w name (.constant v t) hvalue
  have hscope : z.frame.scope = w.frame.scope.insert name (.constant v t) := by
    rw [show z.frame = _ from congrArg (·.frame) hz]
    rfl
  refine ⟨z, (name, .constant v t) :: L, by rw [hz]; cases h; rfl, hwz, List.suffix_cons _ _,
    hlays.bind hwz hscope (hwz.has hvalue) (by simp [Binding.slot?]), .cons ⟨rfl, ht⟩ hfits, ?_⟩
  intro F hF a ha hk
  have hd : a.registers v = some (.word c) := hk _ hv
  refine ⟨a, .refl, ha.moves hmoves, List.forall_mem_cons.mpr ⟨hd, ?_⟩, fun _ _ => rfl⟩
  exact fun p hp => hk p (hsub hp)

/-! ### Nodes -/

variable {n e : Node} {depth : Nat} {x : BitVec 32}

/-- What is known of the variables may be used. -/
theorem Steers.given {m : Gen α}
    (h : w.Offers facts → w.Lays L → L.Fits σ → Steers env w facts L σ m σ') :
    Steers env w facts L σ m σ' := fun ho hl hf => h ho hl hf ho hl hf

/-- A first step that can only look something up. -/
theorem Steers.look {m : Gen α} {r : α} {k : α → Gen β}
    (hm : ∀ q s, m env w.state = .ok q s → q = r ∧ s = w.state)
    (h : Steers env w facts L σ (k r) σ') : Steers env w facts L σ (m >>= k) σ' := by
  intro ho hl hf hs q s hq
  obtain ⟨r', s₁, h₁, h₂⟩ := bind_ok hq
  obtain ⟨rfl, rfl⟩ := hm r' s₁ h₁
  exact h ho hl hf hs q s h₂

/-- A step that fails steers anything. -/
theorem Steers.of_failure {m : Gen α} (h : ∀ r s, m env w.state ≠ .ok r s) :
    Steers env w facts L σ m σ' := fun _ _ _ _ r s hm => (h r s hm).elim

theorem Steers.of_standard {k : SyntaxKind} (hr : env.registry.IsDiagonal) (hk : n.kind = k)
    (h : ∀ d, depth = d + 1 → Steers env w facts L σ (standard (Gen.generate d) k n) σ') :
    Steers env w facts L σ (Gen.generate depth n) σ' := by
  cases depth with
  | zero => exact .of_failure fun _ _ h => throw_ok h
  | succ d =>
    intro ho hl hf hsub v s hs
    have hs := generate_succ_ok hr hs
    rw [hk] at hs
    exact h d rfl ho hl hf hsub v s hs

/-- A variable is generated as what its name stands for. -/
theorem generate_variable_ok {b : Binding StaticType} {value : Value} {s s' : GenState}
    (hr : env.registry.IsDiagonal) (hf : n.form = .identifier name)
    (hb : s.frame.scope.get? name = some b) (ht : b.toValue.type.isWord = true)
    (h : Gen.generate depth n env s = .ok value s') : value = b.toValue ∧ s' = s := by
  cases depth with
  | zero => exact (throw_ok h).elim
  | succ depth =>
    have h := generate_succ_ok hr h
    rw [show n.kind = .identifier from congrArg Form.kind hf] at h
    have h : identifier n env s = .ok value s' := h
    unfold identifier at h
    rw [hf] at h
    obtain ⟨fr, s₁, h₁, h⟩ := bind_ok h
    cases h₁
    rw [hb] at h
    cases b with
    | constant v t =>
      have ht : t.isWord = true := ht
      have h : valueOf v t n.span env s = .ok value s' := h
      rw [valueOf_word ht] at h
      exact pure_ok h
    | slot ptr lowered t => exact pure_ok h

/-- An assignment goes to the slot of the variable; to a constant there is none. -/
theorem Steers.to_slot {target : Node} {k : Assignable → Gen α} {other : Gen α}
    (hr : env.registry.IsDiagonal) (ht : target.form = .identifier name)
    (hc : σ.get? name = some c) (hother : ∀ r s, other env w.state ≠ .ok r s)
    (h : ∀ ptr lowered, L.lookup name = some (.slot ptr lowered c.type) →
      (.assignable ⟨.slot ptr lowered, c.type⟩, c) ∈ L.facts σ →
      Steers env w facts L σ (k ⟨.slot ptr lowered, c.type⟩) σ') :
    Steers env w facts L σ (do
      match ← Gen.generate depth target with
      | .assignable a => k a
      | _ => other) σ' := by
  refine .given fun _ hlays hfits => ?_
  obtain ⟨b, hb, hin⟩ := hfits.exists_lookup hc
  have htype : b.toValue.type = c.type := (hlays.offers hfits _ hin).2.1
  refine .look (fun v s hv => generate_variable_ok hr ht (hlays.scope hb)
    (htype ▸ c.isWord_type) hv) ?_
  cases b with
  | constant v t => exact .of_failure hother
  | slot ptr lowered t =>
    obtain rfl : t = c.type := htype
    exact h ptr lowered hb hin

theorem computes_of_lays (depth : Nat) (hr : env.registry.IsDiagonal) (hlays : w.Lays L) (hfits : L.Fits σ)
    (hsub : L.facts σ ⊆ facts) (hn : n.IsPure) (h : n.Evaluates σ c) :
    Computes env (Gen.generate depth) w.frame.scope facts n c := by
  intro x hx
  exact (evaluates_computes hr (hlays.lists hfits) hn h x hx).mono hsub
    fun _ => List.Subset.refl _

theorem assignment_steers {target : Node} (hr : env.registry.IsDiagonal)
    (hf : n.form = .assign none target e) (ht : target.form = .identifier name) (he : e.IsPure)
    (hc : σ.get? name = some c) (h : e.Evaluates σ c') :
    Steers env w (L.facts σ) L σ (Gen.generate depth n) (σ.set name c') := by
  refine .of_standard hr (congrArg Form.kind hf) fun d _ => ?_
  show Steers env w (L.facts σ) L σ (assignment (Gen.generate d) n) _
  unfold assignment
  rw [hf]
  refine .to_slot hr ht hc (fun _ _ h => internal_ok h) fun ptr lowered hl _ => ?_
  refine .given fun _ hlays hfits => ?_
  refine (computes_of_lays _ hr hlays hfits (List.Subset.refl _) he h w rfl).steers fun v x _ => ?_
  exact assign_steers hl hc List.mem_cons_self

theorem compound_steers {target : Node} {op : BinaryOp} {c₁ c₂ : Word}
    (hr : env.registry.IsDiagonal) (hf : n.form = .assign (some op) target e)
    (hop : op.isIntegral = true) (ht : target.form = .identifier name) (he : e.IsPure)
    (hc : σ.get? name = some c₁) (h : e.Evaluates σ c₂) (ha : op.apply c₁ c₂ = some c) :
    Steers env w (L.facts σ) L σ (Gen.generate depth n) (σ.set name c) := by
  refine .of_standard hr (congrArg Form.kind hf) fun d _ => ?_
  show Steers env w (L.facts σ) L σ (assignment (Gen.generate d) n) _
  unfold assignment
  rw [hf]
  refine .to_slot hr ht hc (fun _ _ h => internal_ok h) fun ptr lowered hl hin => ?_
  have hstrict : ¬ (op = .and ∨ op = .or) := by
    rintro (rfl | rfl) <;> cases hop
  have hint : op.isIntegral = true → c₁.type = .int := by
    intro hi
    obtain ⟨x, y, z, rfl, rfl, rfl⟩ := exists_int_of_apply ha hi
    rfl
  refine .given fun _ hlays hfits => ?_
  dsimp only
  rw [if_neg hstrict]
  refine (operand_performs hin : Performs env w _ (operand _ n.span) _).steers fun current x hx => ?_
  refine (computes_of_lays _ hr (hlays.inherits (.of_le hx)) hfits (by simp) he h x rfl).steers
    fun rhs y _ => ?_
  refine (strictBinary_performs (a := c₁) (b := c₂) (by simp) (by simp) ha hint).steers
    fun result z _ => ?_
  exact assign_steers hl hc List.mem_cons_self

theorem update_steers {target : Node} {op : UpdateOp} {before : Bool}
    (hr : env.registry.IsDiagonal) (hf : n.form = .update op before target)
    (ht : target.form = .identifier name) (hc : σ.get? name = some (.int x)) :
    Steers env w (L.facts σ) L σ (Gen.generate depth n) (σ.set name (.int (op.apply x))) := by
  refine .of_standard hr (congrArg Form.kind hf) fun d _ => ?_
  show Steers env w (L.facts σ) L σ (update (Gen.generate d) n) _
  unfold update
  rw [hf]
  refine .to_slot hr ht hc (fun _ _ h => internal_ok h) fun ptr lowered hl hin => ?_
  have step {inst : BinOp} (hinst : inst.apply (.int x) (.int 1) = some (.int (op.apply x))) :
      Steers env w (L.facts σ) L σ (do
        let old ← load ⟨.slot ptr lowered, .int⟩ n.span
        let one ← emitConst (.i32 1)
        let new ← emitBinary inst old one
        store ⟨.slot ptr lowered, .int⟩ new n.span
        return Value.rvalue (if before then new else old) .int) (σ.set name (.int (op.apply x))) := by
    refine (operand_performs hin : Performs env w _ (operand _ n.span) _).steers fun old y _ => ?_
    refine (emitConst_performs (.int 1) rfl).steers fun one z _ => ?_
    refine (emitBinary_performs (a := .int x) (b := .int 1) (by simp) List.mem_cons_self
      hinst).steers fun new u _ => ?_
    exact (store_steers hl hc (show _ = (Word.int (op.apply x)).type from rfl)
      List.mem_cons_self).finish
      fun _ => ⟨_, rfl⟩
  cases op with
  | increment => exact step rfl
  | decrement => exact step rfl

theorem generateOperand_performs (hn : Computes env generate w.frame.scope facts n c) :
    Performs env w facts (generateOperand generate n c.type) fun r => [(.rvalue r c.type, c)] :=
  .bind (hn w rfl) fun v x _ => castOperand_performs (by simp)

/-- An operand of integer or boolean type is generated for a value of that type only. -/
theorem type_eq_of_generateOperand {r : ValueId} {s : GenState}
    (hn : Computes env generate w.frame.scope facts n c) (ho : w.Offers facts)
    (ht : t.isWord = true) (h : generateOperand generate n t env w.state = .ok r s) :
    t = c.type := by
  obtain ⟨v, s₁, h₁, h⟩ := bind_ok h
  obtain ⟨x, rfl, -, hoff, -⟩ := hn w rfl ho v s₁ h₁
  exact type_eq_of_castOperand (hoff (v, c) (by simp)).2.1 ht h

theorem declaration_steers {mutable : Bool} (hr : env.registry.IsDiagonal)
    (hf : n.form = .variableDeclaration name (some e) mutable) (ht : n.type.isWord = true)
    (he : e.IsPure) (h : e.Evaluates σ c) :
    Steers env w (L.facts σ) L σ (Gen.generate depth n) ((name, c) :: σ) := by
  refine .of_standard hr (congrArg Form.kind hf) fun d _ => ?_
  show Steers env w (L.facts σ) L σ (variableDeclaration (Gen.generate d) n) _
  unfold variableDeclaration
  rw [hf]
  refine .look (r := n.type) (fun q s hq => ?_) ?_
  · cases hq
    exact ⟨substitute_of_isWord ht _, rfl⟩
  refine .given fun ho hlays hfits => ?_
  have hcomp := computes_of_lays d hr hlays hfits (List.Subset.refl _) he h
  intro ho' hl hf' hs r s hrun
  obtain ⟨q, s₁, h₁, -⟩ := bind_ok hrun
  have htype : n.type = c.type := type_eq_of_generateOperand hcomp ho ht h₁
  rw [htype] at hrun
  have hall : Steers env w (L.facts σ) L σ (do
      let x ← generateOperand (Gen.generate d) e c.type
      if mutable then bindLocal name x c.type n.span
      else modifyFrame fun f => { f with scope := f.scope.bindConstant name x c.type }
      return Value.unit) ((name, c) :: σ) := by
    refine (generateOperand_performs hcomp).steers fun x y _ => ?_
    cases mutable with
    | true => exact (bindLocal_steers rfl List.mem_cons_self).finish fun _ => ⟨_, rfl⟩
    | false => exact (bindConstant_steers rfl List.mem_cons_self).finish fun _ => ⟨_, rfl⟩
  exact hall ho' hl hf' hs r s hrun

/-- A variable that is declared without value holds zero. -/
theorem zeroDeclaration_steers {mutable : Bool} (hr : env.registry.IsDiagonal)
    (hf : n.form = .variableDeclaration name none mutable) (h : Word.zero? n.type = some c) :
    Steers env w (L.facts σ) L σ (Gen.generate depth n) ((name, c) :: σ) := by
  refine .of_standard hr (congrArg Form.kind hf) fun d _ => ?_
  show Steers env w (L.facts σ) L σ (variableDeclaration (Gen.generate d) n) _
  unfold variableDeclaration
  rw [hf]
  have zero {k : Constant} (hk : k.word? = some c) (ht : n.type = c.type) :
      Steers env w (L.facts σ) L σ (do
        bindLocal name (← emitConst k) n.type n.span
        return Value.unit) ((name, c) :: σ) :=
    (emitConst_performs c hk).steers fun v x _ =>
      (bindLocal_steers ht List.mem_cons_self).finish fun _ => ⟨_, rfl⟩
  refine .look (r := n.type) (fun q s hq => ?_) ?_
  · cases hq
    refine ⟨substitute_of_isWord ?_ _, rfl⟩
    cases ht : n.type <;> rw [ht] at h <;> first | rfl | cases h
  cases ht : n.type <;> rw [ht] at h <;> cases h
  · rw [ht] at zero
    refine .look (r := Ty.i32) (fun q s hq => ?_) (zero (k := .i32 0) rfl rfl)
    cases hq
    exact ⟨rfl, rfl⟩
  · rw [ht] at zero
    refine .look (r := Ty.i1) (fun q s hq => ?_) (zero (k := .int .i1 0) rfl rfl)
    cases hq
    exact ⟨rfl, rfl⟩

end Gen

end TypedLowering
