import Mathlib.Data.List.Perm.Basic
import TypedLowering.Proofs.Ssa.Body
import TypedLowering.Ssa.Module

/-!
The calls of a function and of a module, as the list of their callees. Appending a call to a block adds
its callee somewhere in the list; nothing else that is done to a body changes it. Both rest on blocks
listing only values that are in the table.
-/
namespace TypedLowering.Ssa
set_option autoImplicit false

/-- The function that an instruction calls. -/
def Op.callee? : Op → Option FunctionId
  | .call callee _ _ => some callee
  | _ => none

/-- Changing one element of a list by something that adds to its image. -/
theorem flatMap_modify_perm {α β : Type} {g : α → α} {h : α → List β} {added : List β} :
    ∀ {l : List α} {i : Nat}, i < l.length →
      (∀ a, l[i]? = some a → (h (g a)).Perm (added ++ h a)) →
      ((l.modify i g).flatMap h).Perm (added ++ l.flatMap h)
  | [], _, hi, _ => by simp at hi
  | a :: l, 0, _, hg => by
    have ha := hg a rfl
    simp only [List.modify_zero_cons, List.flatMap_cons]
    rw [← List.append_assoc]
    exact ha.append_right _
  | a :: l, i + 1, hi, hg => by
    have ih := flatMap_modify_perm (l := l) (i := i) (by simpa using hi) (by simpa using hg)
    simp only [List.modify_succ_cons, List.flatMap_cons]
    refine (ih.append_left (h a)).trans ?_
    rw [← List.append_assoc, ← List.append_assoc]
    exact List.perm_append_comm.append_right _

namespace Function

variable {f : Function} {b : BlockId}

/-- The callees of all calls, in block order. -/
def callees (f : Function) : List FunctionId := f.calls.map (·.1)

/-- The instructions of all blocks by number. -/
def listed (f : Function) : List ValueId := f.blocks.toList.flatMap fun b => b.insts.toList

/-- Blocks list values of the table only. -/
def Tidy (f : Function) : Prop := ∀ v ∈ f.listed, v.index < f.values.size

/-- The function that a value is the result of. -/
def calleeOf (f : Function) (v : ValueId) : Option FunctionId :=
  (f.definition? v).bind fun d => d.op.callee?

theorem callees_eq (f : Function) : f.callees = f.listed.filterMap f.calleeOf := by
  unfold callees calls instructions listed
  rw [List.filterMap_filterMap, List.map_filterMap]
  refine List.filterMap_congr fun v _ => ?_
  unfold calleeOf
  cases f.definition? v with
  | none => rfl
  | some d =>
    obtain ⟨op, t⟩ := d
    cases op <;> rfl

/-- A value behind the table changes nothing about the values in it. -/
theorem filterMap_calleeOf_define (h : f.Tidy) {g : Function} {d : Definition}
    (hg : g.values = f.values.push d) :
    f.listed.filterMap g.calleeOf = f.listed.filterMap f.calleeOf := by
  refine List.filterMap_congr fun v hv => ?_
  unfold calleeOf definition?
  rw [hg, Array.getElem?_push, if_neg (Nat.ne_of_lt (h v hv))]

theorem listed_append (hb : f.HasBlock b) (d : Definition) :
    (f.append b d).listed.Perm (f.nextValue :: f.listed) := by
  unfold listed append place define
  rw [Array.toList_modify]
  show ((f.blocks.toList.modify b.index _).flatMap _).Perm ([f.nextValue] ++ _)
  refine flatMap_modify_perm hb fun block _ => ?_
  simp only [Array.toList_push]
  exact List.perm_append_comm

theorem Tidy.append (h : f.Tidy) (hb : f.HasBlock b) (d : Definition) : (f.append b d).Tidy := by
  intro v hv
  rw [values_append, Array.size_push]
  rcases List.mem_cons.mp ((listed_append hb d).mem_iff.mp hv) with rfl | hv
  · exact Nat.lt_succ_self _
  · exact Nat.lt_succ_of_lt (h v hv)

theorem callees_append (h : f.Tidy) (hb : f.HasBlock b) (d : Definition) :
    (f.append b d).callees.Perm (d.op.callee?.toList ++ f.callees) := by
  have hnext : (f.append b d).calleeOf f.nextValue = d.op.callee? := by
    rw [calleeOf, definition?_append_next]
    rfl
  rw [callees_eq, callees_eq]
  refine ((listed_append hb d).filterMap _).trans ?_
  rw [List.filterMap_cons, hnext, filterMap_calleeOf_define h (values_append f b d)]
  cases d.op.callee? <;> exact .refl _

theorem listed_addSlot_of_shaped (hs : f.Shaped) (t : Ty) :
    (f.addSlot t).listed.Perm (f.nextValue :: f.listed) := by
  unfold listed addSlot placeSlot define
  rw [Array.toList_modify]
  show ((f.blocks.toList.modify 0 _).flatMap _).Perm ([f.nextValue] ++ _)
  refine flatMap_modify_perm hs.entry fun block hblock => ?_
  rw [Array.getElem?_toList] at hblock
  rw [toList_insertIdxIfInBounds _ _ _ (hs.room block hblock)]
  refine List.perm_middle.trans ?_
  rw [List.take_append_drop]
  exact .refl _

/-- A slot gets into the first block, if there is one with room for it. -/
theorem listed_addSlot (f : Function) (t : Ty) :
    (f.addSlot t).listed.Perm (f.nextValue :: f.listed) ∨ (f.addSlot t).listed = f.listed := by
  by_cases hs : f.Shaped
  · exact .inl (listed_addSlot_of_shaped hs t)
  · refine .inr ?_
    unfold listed addSlot placeSlot define
    rw [Array.toList_modify]
    cases hblocks : f.blocks.toList with
    | nil => rfl
    | cons block rest =>
      have hfirst : f.blocks[0]? = some block := by
        rw [← Array.getElem?_toList, hblocks]
        rfl
      have hentry : 0 < f.blocks.size := (Array.getElem?_eq_some_iff.mp hfirst).1
      have hfull : ¬ f.entryAllocas ≤ block.insts.size := fun hle =>
        hs ⟨hentry, fun other ho => by cases hfirst.symm.trans ho; exact hle⟩
      rw [List.modify_zero_cons, List.flatMap_cons, List.flatMap_cons, Array.insertIdxIfInBounds,
        dif_neg hfull]

theorem Tidy.addSlot (h : f.Tidy) (t : Ty) : (f.addSlot t).Tidy := by
  intro v hv
  rw [values_addSlot, Array.size_push]
  have hold : v = f.nextValue ∨ v ∈ f.listed := by
    rcases f.listed_addSlot t with hp | he
    · exact List.mem_cons.mp (hp.mem_iff.mp hv)
    · exact .inr (he ▸ hv)
  rcases hold with rfl | hv
  · exact Nat.lt_succ_self _
  · exact Nat.lt_succ_of_lt (h v hv)

theorem callees_addSlot (h : f.Tidy) (t : Ty) : (f.addSlot t).callees.Perm f.callees := by
  have hnext : (f.addSlot t).calleeOf f.nextValue = none := by
    unfold calleeOf definition? nextValue
    rw [values_addSlot, Array.getElem?_push_size]
    rfl
  have hold := filterMap_calleeOf_define h (values_addSlot f t)
  rw [callees_eq, callees_eq]
  rcases f.listed_addSlot t with hp | he
  · refine (hp.filterMap _).trans ?_
    rw [List.filterMap_cons, hnext, hold]
  · rw [he, hold]

theorem listed_addBlock (f : Function) (word : String) : (f.addBlock word).listed = f.listed := by
  simp [listed, addBlock]

theorem listed_terminate (f : Function) (b : BlockId) (t : Terminator) :
    (f.terminate b t).listed = f.listed := by
  have hsame : ∀ (l : List Block) (i : Nat),
      (l.modify i fun block => { block with terminator := some t }).flatMap
        (fun b => b.insts.toList) = l.flatMap fun b => b.insts.toList := by
    intro l
    induction l with
    | nil => exact fun _ => by rw [List.modify_nil]
    | cons a l ih =>
      intro i
      cases i with
      | zero => rfl
      | succ i => rw [List.modify_succ_cons, List.flatMap_cons, List.flatMap_cons, ih]
  unfold listed terminate
  rw [Array.toList_modify]
  exact hsame _ _

theorem callees_of_listed_eq {g : Function} (hl : g.listed = f.listed)
    (hv : g.values = f.values) : g.callees = f.callees := by
  have hc : g.calleeOf = f.calleeOf := by
    funext v
    rw [calleeOf, calleeOf, definition?, definition?, hv]
  rw [callees_eq, callees_eq, hl, hc]

theorem tidy_of_listed_eq_nil (h : f.listed = []) : f.Tidy := by
  intro v hv
  rw [h] at hv
  cases hv

theorem callees_of_listed_eq_nil (h : f.listed = []) : f.callees = [] := by
  rw [callees_eq, h]
  rfl

/-! ## Changes of a body -/

/-- A function with the name of another, defined here if that one is, that has its blocks. -/
structure Carries (f g : Function) : Prop where
  name : g.name = f.name
  kind : g.isDeclaration = f.isDeclaration
  blocks : ∀ {b}, f.HasBlock b → g.HasBlock b

theorem Carries.refl (f : Function) : f.Carries f := ⟨rfl, rfl, id⟩

theorem Carries.trans {g k : Function} (h : f.Carries g) (h' : g.Carries k) : f.Carries k :=
  ⟨h'.name.trans h.name, h'.kind.trans h.kind, fun hb => h'.blocks (h.blocks hb)⟩

theorem carries_append (f : Function) (b : BlockId) (d : Definition) : f.Carries (f.append b d) :=
  ⟨rfl, rfl, (hasBlock_append d).mpr⟩

/-- A change of a body, in a block of it, that calls nothing. -/
inductive Edit (b : BlockId) : (Function → Function) → Prop
  | append {d : Definition} (h : d.op.callee? = none) : Edit b fun f => f.append b d
  | addSlot (t : Ty) : Edit b fun f => f.addSlot t
  | terminate (t : Terminator) : Edit b fun f => f.terminate b t
  | addBlock (word : String) : Edit b fun f => f.addBlock word

namespace Edit

variable {g : Function → Function}

theorem carries (h : Edit b g) (f : Function) : f.Carries (g f) := by
  cases h with
  | append => exact f.carries_append b _
  | addSlot t => exact ⟨rfl, rfl, (hasBlock_addSlot t).mpr⟩
  | terminate t => exact ⟨rfl, rfl, (hasBlock_terminate t).mpr⟩
  | addBlock word => exact ⟨rfl, rfl, fun hb => (hasBlock_addBlock word).mpr (.inl hb)⟩

theorem tidy (h : Edit b g) (hf : f.Tidy) (hb : f.HasBlock b) : (g f).Tidy := by
  cases h with
  | append => exact hf.append hb _
  | addSlot t => exact hf.addSlot t
  | terminate t => exact fun v hv => hf v (by rwa [listed_terminate] at hv)
  | addBlock word => exact fun v hv => hf v (by rwa [listed_addBlock] at hv)

theorem callees (h : Edit b g) (hf : f.Tidy) (hb : f.HasBlock b) :
    (g f).callees.Perm f.callees := by
  cases h with
  | @append d hd =>
    have hp := callees_append hf hb d
    rwa [hd] at hp
  | addSlot t => exact callees_addSlot hf t
  | terminate t => rw [callees_of_listed_eq (listed_terminate f b t) rfl]
  | addBlock word => rw [callees_of_listed_eq (listed_addBlock f word) rfl]

end Edit

end Function

namespace Module

variable {m : Module} {id : FunctionId} {f : Function}

/-- The callees of all calls of a module. -/
def callees (m : Module) : List FunctionId := m.functions.toList.flatMap Function.callees

theorem mem_callees {c : FunctionId} :
    c ∈ m.callees ↔ ∃ id f, m.function? id = some f ∧ c ∈ f.callees := by
  unfold callees
  rw [List.mem_flatMap]
  constructor
  · rintro ⟨f, hf, hc⟩
    obtain ⟨i, hi⟩ := List.getElem?_of_mem hf
    exact ⟨⟨i⟩, f, by rw [← hi, Array.getElem?_toList]; rfl, hc⟩
  · rintro ⟨id, f, hf, hc⟩
    exact ⟨f, Array.mem_toList_iff.mpr (Array.mem_of_getElem? hf), hc⟩

/-- A change of one function that adds to its calls. -/
theorem callees_modifyFunction {g : Function → Function} {added : List FunctionId}
    (hf : m.function? id = some f) (hg : (g f).callees.Perm (added ++ f.callees)) :
    (m.modifyFunction id g).callees.Perm (added ++ m.callees) := by
  unfold callees modifyFunction
  rw [Array.toList_modify]
  have hi : id.index < m.functions.toList.length := (Array.getElem?_eq_some_iff.mp hf).1
  refine flatMap_modify_perm hi fun a ha => ?_
  rw [Array.getElem?_toList] at ha
  cases hf.symm.trans ha
  exact hg

theorem callees_addFunction (hf : f.callees = []) : (m.addFunction f).callees = m.callees := by
  simp [callees, addFunction, hf]

end Module

end TypedLowering.Ssa
