import Mathlib.Data.List.Basic
import TypedLowering.Ssa.Function

/-!
A function body through three views: `slots`, the stack slots at the head of the first block;
`body`, the instructions of a block behind them; and `exit`, how a block ends. Each operation on
functions changes at most one of the three, which is what the theorems here say.
-/
namespace TypedLowering.Ssa
set_option autoImplicit false

/-! ## What instructions read -/

/-- The values that an instruction reads where it stands. -/
def Op.uses : Op → List ValueId
  | .const _ | .param _ | .alloca _ | .globalAddr _ | .phi _ => []
  | .fneg v | .cast _ v | .load v | .fieldPtr v _ _ => [v]
  | .binary _ v w | .icmp _ v w | .fcmp _ v w | .store v w | .elementPtr v _ w => [v, w]
  | .call _ args _ => args
  | .select c v w => [c, v, w]

/-- The values that a phi reads, each at the end of the block that it belongs to. -/
def Op.arms : Op → List (ValueId × BlockId)
  | .phi incoming => incoming
  | _ => []

/-- All operands of an instruction. -/
def Op.operands (op : Op) : List ValueId := op.uses ++ op.arms.map (·.1)

/-- The operands of a terminator. -/
def Terminator.uses : Terminator → List ValueId
  | .ret (some v) | .condBr v _ _ => [v]
  | .ret none | .br _ | .unreachable => []

namespace Function

/-! ## The views -/

def HasBlock (f : Function) (b : BlockId) : Prop := b.index < f.blocks.size

/-- The stack slots, which stand at the head of the first block. -/
def slots (f : Function) : List ValueId :=
  (f.blocks[0]?).elim [] fun block => block.insts.toList.take f.entryAllocas

/-- The instructions of a block behind the stack slots. -/
def body (f : Function) (b : BlockId) : List ValueId :=
  (f.blocks[b.index]?).elim [] fun block =>
    block.insts.toList.drop (if b.index = 0 then f.entryAllocas else 0)

/-- How a block ends, once that is known. -/
def exit (f : Function) (b : BlockId) : Option Terminator :=
  (f.blocks[b.index]?).bind (·.terminator)

/-- There is a first block, and it has room for the stack slots. -/
structure Shaped (f : Function) : Prop where
  entry : 0 < f.blocks.size
  room : ∀ block, f.blocks[0]? = some block → f.entryAllocas ≤ block.insts.size

theorem not_hasBlock_nextBlock (f : Function) : ¬ f.HasBlock f.nextBlock := Nat.lt_irrefl _

theorem HasBlock.exists_block {f : Function} {b : BlockId} (h : f.HasBlock b) :
    ∃ block, f.blocks[b.index]? = some block :=
  ⟨_, Array.getElem?_eq_getElem h⟩

theorem Shaped.exists_first {f : Function} (hs : f.Shaped) :
    ∃ block, f.blocks[0]? = some block ∧ f.entryAllocas ≤ block.insts.size :=
  ⟨_, Array.getElem?_eq_getElem hs.entry, hs.room _ (Array.getElem?_eq_getElem hs.entry)⟩

theorem isTerminated_eq (f : Function) (b : BlockId) : f.isTerminated b = (f.exit b).isSome := by
  unfold isTerminated exit
  cases f.blocks[b.index]? <;> rfl

theorem exit_of_not_hasBlock {f : Function} {b : BlockId} (h : ¬ f.HasBlock b) :
    f.exit b = none := by
  unfold exit
  rw [Array.getElem?_eq_none (Nat.le_of_not_lt h)]
  rfl

theorem hasBlock_of_exit {f : Function} {b : BlockId} {t : Terminator} (h : f.exit b = some t) :
    f.HasBlock b := by
  by_contra hb
  rw [exit_of_not_hasBlock hb] at h
  cases h

theorem body_of_not_hasBlock {f : Function} {b : BlockId} (h : ¬ f.HasBlock b) :
    f.body b = [] := by
  unfold body
  rw [Array.getElem?_eq_none (Nat.le_of_not_lt h)]
  rfl

theorem hasBlock_of_mem_body {f : Function} {b : BlockId} {v : ValueId} (h : v ∈ f.body b) :
    f.HasBlock b := by
  by_contra hb
  rw [body_of_not_hasBlock hb] at h
  cases h

/-- A block is its slots, if it is the first, and its body. -/
theorem insts_eq {f : Function} {b : BlockId} {block : Block} (h : f.block? b = some block) :
    block.insts.toList = (if b.index = 0 then f.slots else []) ++ f.body b := by
  unfold block? at h
  by_cases hb : b.index = 0
  · rw [hb] at h
    simp [slots, body, hb, h]
  · simp [body, hb, h]

/-! ## Appending an instruction -/

section Append

variable {f : Function} {b : BlockId} (d : Definition)

@[simp] theorem size_blocks_append : (f.append b d).blocks.size = f.blocks.size := by
  simp [append, place, define]

@[simp] theorem hasBlock_append {c : BlockId} : (f.append b d).HasBlock c ↔ f.HasBlock c := by
  simp [HasBlock]

@[simp] theorem entryAllocas_append : (f.append b d).entryAllocas = f.entryAllocas := rfl

@[simp] theorem params_append : (f.append b d).params = f.params := rfl

theorem getElem?_blocks_append (i : Nat) :
    (f.append b d).blocks[i]? = if b.index = i then
      (f.blocks[i]?).map fun block => { block with insts := block.insts.push f.nextValue }
    else f.blocks[i]? := by
  simp [append, place, define, Array.getElem?_modify]

@[simp] theorem exit_append (c : BlockId) : (f.append b d).exit c = f.exit c := by
  unfold exit
  rw [getElem?_blocks_append]
  split
  · cases f.blocks[c.index]? <;> rfl
  · rfl

theorem slots_append (hs : f.Shaped) : (f.append b d).slots = f.slots := by
  unfold slots
  rw [getElem?_blocks_append, entryAllocas_append]
  cases h : f.blocks[0]? with
  | none => simp
  | some block =>
    have hr : f.entryAllocas ≤ block.insts.toList.length := hs.room block h
    split
    · simp only [Option.map_some, Option.elim_some, Array.toList_push]
      rw [List.take_append_of_le_length hr]
    · rfl

theorem body_append (hs : f.Shaped) (hb : f.HasBlock b) (c : BlockId) :
    (f.append b d).body c = if c = b then f.body b ++ [f.nextValue] else f.body c := by
  unfold body
  rw [getElem?_blocks_append, entryAllocas_append]
  by_cases hcb : c = b
  · subst hcb
    obtain ⟨block, h⟩ := hb.exists_block
    simp only [if_true, h, Option.map_some, Option.elim_some, Array.toList_push]
    rw [List.drop_append_of_le_length]
    split
    · next h0 => exact hs.room block (by rw [← h, h0])
    · exact Nat.zero_le _
  · have hne : ¬ b.index = c.index := fun e => hcb (by cases b; cases c; simp_all)
    rw [if_neg hcb, if_neg hne]

theorem mem_body_append (hs : f.Shaped) (hb : f.HasBlock b) {c : BlockId} {v : ValueId} :
    v ∈ (f.append b d).body c ↔ v ∈ f.body c ∨ c = b ∧ v = f.nextValue := by
  rw [body_append d hs hb]
  by_cases h : c = b
  · subst h
    simp
  · simp [h]

theorem shaped_append (hs : f.Shaped) : (f.append b d).Shaped := by
  refine ⟨by simpa using hs.entry, ?_⟩
  intro block h
  rw [getElem?_blocks_append] at h
  rw [entryAllocas_append]
  split at h
  · obtain ⟨block', h', rfl⟩ := Option.map_eq_some_iff.mp h
    have := hs.room block' h'
    simp only [Array.size_push]
    omega
  · exact hs.room block h

end Append

/-! ## Adding a stack slot -/

section AddSlot

variable {f : Function} (t : Ty)

@[simp] theorem size_blocks_addSlot : (f.addSlot t).blocks.size = f.blocks.size := by
  simp [addSlot, placeSlot, define]

@[simp] theorem hasBlock_addSlot {c : BlockId} : (f.addSlot t).HasBlock c ↔ f.HasBlock c := by
  simp [HasBlock]

@[simp] theorem entryAllocas_addSlot : (f.addSlot t).entryAllocas = f.entryAllocas + 1 := rfl

@[simp] theorem params_addSlot : (f.addSlot t).params = f.params := rfl

theorem getElem?_blocks_addSlot (i : Nat) :
    (f.addSlot t).blocks[i]? = if 0 = i then (f.blocks[i]?).map fun block =>
      { block with insts := block.insts.insertIdxIfInBounds f.entryAllocas f.nextValue }
    else f.blocks[i]? := by
  simp [addSlot, placeSlot, define, Array.getElem?_modify]

@[simp] theorem exit_addSlot (c : BlockId) : (f.addSlot t).exit c = f.exit c := by
  unfold exit
  rw [getElem?_blocks_addSlot]
  split
  · cases f.blocks[c.index]? <;> rfl
  · rfl

theorem insertIdx_eq_append {α : Type} (x : α) :
    ∀ (l : List α) (i : Nat), i ≤ l.length → l.insertIdx i x = l.take i ++ x :: l.drop i
  | _, 0, _ => rfl
  | [], i + 1, h => by simp at h
  | a :: l, i + 1, h => by
    rw [List.insertIdx_succ_cons, insertIdx_eq_append x l i (by simpa using h)]
    rfl

theorem toList_insertIdxIfInBounds {α : Type} (xs : Array α) (i : Nat) (x : α) (h : i ≤ xs.size) :
    (xs.insertIdxIfInBounds i x).toList = xs.toList.take i ++ x :: xs.toList.drop i := by
  unfold Array.insertIdxIfInBounds
  rw [dif_pos h, Array.toList_insertIdx, insertIdx_eq_append x xs.toList i h]

theorem slots_addSlot (hs : f.Shaped) : (f.addSlot t).slots = f.slots ++ [f.nextValue] := by
  unfold slots
  rw [getElem?_blocks_addSlot, entryAllocas_addSlot]
  obtain ⟨block, h, hr⟩ := hs.exists_first
  have hl : (block.insts.toList.take f.entryAllocas).length = f.entryAllocas := by
    simp only [List.length_take, Array.length_toList]; omega
  simp only [h, if_true, Option.map_some, Option.elim_some]
  rw [toList_insertIdxIfInBounds _ _ _ hr, List.take_append, hl, List.take_of_length_le (by omega)]
  simp

theorem body_addSlot (hs : f.Shaped) (c : BlockId) : (f.addSlot t).body c = f.body c := by
  unfold body
  rw [getElem?_blocks_addSlot, entryAllocas_addSlot]
  by_cases hc : c.index = 0
  · obtain ⟨block, h, hr⟩ := hs.exists_first
    have hl : (block.insts.toList.take f.entryAllocas).length = f.entryAllocas := by
      simp only [List.length_take, Array.length_toList]; omega
    simp only [hc, h, if_true, Option.map_some, Option.elim_some]
    rw [toList_insertIdxIfInBounds _ _ _ hr, List.drop_append, hl, List.drop_of_length_le (by omega)]
    simp
  · rw [if_neg (Ne.symm hc), if_neg hc, if_neg hc]

theorem shaped_addSlot (hs : f.Shaped) : (f.addSlot t).Shaped := by
  refine ⟨by simpa using hs.entry, ?_⟩
  intro block h
  rw [getElem?_blocks_addSlot, if_pos rfl] at h
  obtain ⟨block', h', rfl⟩ := Option.map_eq_some_iff.mp h
  have hr := hs.room block' h'
  have hl := congrArg List.length (toList_insertIdxIfInBounds block'.insts _ f.nextValue hr)
  simp only [Array.length_toList, List.length_append, List.length_cons, List.length_take,
    List.length_drop] at hl
  rw [entryAllocas_addSlot]
  simp only [hl]
  omega

end AddSlot

/-! ## Adding a block -/

section AddBlock

variable {f : Function} (word : String)

@[simp] theorem size_blocks_addBlock : (f.addBlock word).blocks.size = f.blocks.size + 1 := by
  simp [addBlock]

@[simp] theorem params_addBlock : (f.addBlock word).params = f.params := rfl

theorem hasBlock_addBlock {c : BlockId} :
    (f.addBlock word).HasBlock c ↔ f.HasBlock c ∨ c = f.nextBlock := by
  obtain ⟨i⟩ := c
  simp only [HasBlock, size_blocks_addBlock, nextBlock, Handle.mk.injEq]
  omega

theorem getElem?_blocks_addBlock (i : Nat) :
    (f.addBlock word).blocks[i]? = if i = f.blocks.size then
      some { label := word ++ toString f.blocks.size } else f.blocks[i]? := by
  simp [addBlock, Array.getElem?_push]

@[simp] theorem exit_addBlock (c : BlockId) : (f.addBlock word).exit c = f.exit c := by
  unfold exit
  rw [getElem?_blocks_addBlock]
  split
  · next h => rw [Array.getElem?_eq_none (by omega)]; rfl
  · rfl

@[simp] theorem body_addBlock (c : BlockId) : (f.addBlock word).body c = f.body c := by
  unfold body
  rw [getElem?_blocks_addBlock]
  split
  · next h => rw [Array.getElem?_eq_none (by omega)]; simp
  · rfl

theorem slots_addBlock (hs : f.Shaped) : (f.addBlock word).slots = f.slots := by
  unfold slots
  rw [getElem?_blocks_addBlock, if_neg (Nat.ne_of_lt hs.entry)]
  rfl

theorem shaped_addBlock (hs : f.Shaped) : (f.addBlock word).Shaped := by
  refine ⟨by simp, ?_⟩
  intro block h
  rw [getElem?_blocks_addBlock, if_neg (Nat.ne_of_lt hs.entry)] at h
  exact hs.room block h

end AddBlock

/-! ## Ending a block -/

section Terminate

variable {f : Function} {b : BlockId} (t : Terminator)

@[simp] theorem size_blocks_terminate : (f.terminate b t).blocks.size = f.blocks.size := by
  simp [terminate]

@[simp] theorem hasBlock_terminate {c : BlockId} : (f.terminate b t).HasBlock c ↔ f.HasBlock c := by
  simp [HasBlock]

@[simp] theorem params_terminate : (f.terminate b t).params = f.params := rfl

@[simp] theorem entryAllocas_terminate : (f.terminate b t).entryAllocas = f.entryAllocas := rfl

theorem getElem?_blocks_terminate (i : Nat) :
    (f.terminate b t).blocks[i]? = if b.index = i then
      (f.blocks[i]?).map fun block => { block with terminator := some t }
    else f.blocks[i]? := by
  simp [terminate, Array.getElem?_modify]

theorem exit_terminate (hb : f.HasBlock b) (c : BlockId) :
    (f.terminate b t).exit c = if c = b then some t else f.exit c := by
  unfold exit
  rw [getElem?_blocks_terminate]
  by_cases hcb : c = b
  · subst hcb
    rw [if_pos rfl, if_pos rfl, Array.getElem?_eq_getElem hb]
    rfl
  · have hne : ¬ b.index = c.index := fun e => hcb (by cases b; cases c; simp_all)
    rw [if_neg hcb, if_neg hne]

@[simp] theorem body_terminate (c : BlockId) : (f.terminate b t).body c = f.body c := by
  unfold body
  rw [getElem?_blocks_terminate]
  split
  · cases f.blocks[c.index]? <;> rfl
  · rfl

@[simp] theorem slots_terminate : (f.terminate b t).slots = f.slots := by
  unfold slots
  rw [getElem?_blocks_terminate]
  split
  · cases f.blocks[0]? <;> rfl
  · rfl

theorem shaped_terminate (hs : f.Shaped) : (f.terminate b t).Shaped := by
  refine ⟨by simpa using hs.entry, ?_⟩
  intro block h
  rw [getElem?_blocks_terminate] at h
  split at h
  · obtain ⟨block', h', rfl⟩ := Option.map_eq_some_iff.mp h
    exact hs.room block' h'
  · exact hs.room block h

end Terminate

end Function

end TypedLowering.Ssa
