import TypedLowering.Proofs.Ssa.Availability
import TypedLowering.Proofs.Ssa.Calls

/-!
The order of values in a function under construction. Parameters are the first values and stand in no
block; every other value stands at one place of one block; stack slots are the head of the first block;
and what else a block lists is in the order of creation.

Main definitions:

- `Instruction`, `BodyStep`: what may be asked of a function under construction;
- `Function.Arranged`: the order, in terms of the slots and the bodies of blocks.

Main statements: `Function.Arranged.perform` for one step, and `Function.construction_arranges` for
everything that is built from the shell of a definition.
-/
namespace TypedLowering.Ssa
set_option autoImplicit false

/-! ## Steps -/

/-- An instruction that is asked for. A stack slot is none, as it goes to a place of its own. -/
inductive Instruction where
  | const (c : Constant)
  | binary (op : BinOp) (lhs rhs : ValueId)
  | fneg (v : ValueId)
  | icmp (pred : IntPredicate) (lhs rhs : ValueId)
  | fcmp (pred : FloatPredicate) (lhs rhs : ValueId)
  | cast (op : CastOp) (v : ValueId) (target : Ty)
  | select (cond thenValue elseValue : ValueId)
  | load (t : Ty) (ptr : ValueId)
  | store (v ptr : ValueId)
  | fieldPtr (base : ValueId) (s : StructId) (index : Nat)
  | elementPtr (base : ValueId) (t : Ty) (index : ValueId)
  | globalAddr (g : GlobalId)
  | call (callee : FunctionId) (ret : Ty) (args : List ValueId) (attrs : Attributes)
  | phi (t : Ty) (incoming : List (ValueId × BlockId))
  deriving DecidableEq, Repr

/-- What an instruction defines in a function, where the types of operands are known. -/
def Instruction.definition (f : Function) : Instruction → Definition
  | .const c => .const c
  | .binary op lhs rhs => .binary op lhs rhs (f.valueType lhs)
  | .fneg v => .fneg v
  | .icmp pred lhs rhs => .icmp pred lhs rhs
  | .fcmp pred lhs rhs => .fcmp pred lhs rhs
  | .cast op v target => .cast op v target
  | .select cond thenValue elseValue => .select cond thenValue elseValue (f.valueType thenValue)
  | .load t ptr => .load t ptr
  | .store v ptr => .store v ptr
  | .fieldPtr base s index => .fieldPtr base s index
  | .elementPtr base t index => .elementPtr base t index
  | .globalAddr g => .globalAddr g
  | .call callee ret args attrs => .call callee ret args attrs
  | .phi t incoming => .phi t incoming

/-- One step of the construction of a body, with the block where the construction stands. -/
inductive BodyStep where
  | addBlock (word : String)
  | emit (b : BlockId) (i : Instruction)
  | slot (b : BlockId) (t : Ty)
  | finish (b : BlockId) (t : Terminator)
  deriving DecidableEq, Repr

/-- The block where the construction stands. A new block needs none. -/
def BodyStep.block? : BodyStep → Option BlockId
  | .addBlock _ => none
  | .emit b _ | .slot b _ | .finish b _ => some b

def Op.isAlloca : Op → Bool
  | .alloca _ => true
  | _ => false

namespace Function

instance (f : Function) (b : BlockId) : Decidable (f.HasBlock b) :=
  inferInstanceAs (Decidable (b.index < f.blocks.size))

def perform (f : Function) : BodyStep → Function
  | .addBlock word => f.addBlock word
  | .emit b i => f.append b (i.definition f)
  | .slot _ t => f.addSlot t
  | .finish b t => f.terminate b t

/-- The function after some steps. -/
def construct (f : Function) (steps : List BodyStep) : Function := steps.foldl perform f

/-- Each step stands in a block that is there by then. -/
def Admits : Function → List BodyStep → Prop
  | _, [] => True
  | f, step :: steps => (∀ b ∈ step.block?, f.HasBlock b) ∧ (f.perform step).Admits steps

instance decidableAdmits : (f : Function) → (steps : List BodyStep) → Decidable (f.Admits steps)
  | _, [] => isTrue trivial
  | f, step :: steps =>
    have := decidableAdmits (f.perform step) steps
    inferInstanceAs (Decidable ((∀ b ∈ step.block?, f.HasBlock b) ∧ (f.perform step).Admits steps))

/-! ## Values in the order of creation -/

variable {f g : Function} {b c : BlockId} {v : ValueId} {d : Definition}

/-- All values in the order of creation. -/
def valueIds (f : Function) : List ValueId := (List.range f.values.size).map Handle.mk

def isAlloca (f : Function) (v : ValueId) : Bool := (f.definition? v).any fun d => d.op.isAlloca

/-- The stack slots in the order of creation. -/
def allocas (f : Function) : List ValueId := f.valueIds.filter f.isAlloca

theorem mem_valueIds : v ∈ f.valueIds ↔ v.index < f.values.size := by
  unfold valueIds
  rw [List.mem_map]
  constructor
  · rintro ⟨i, hi, rfl⟩
    exact List.mem_range.mp hi
  · exact fun h => ⟨v.index, List.mem_range.mpr h, rfl⟩

theorem nodup_valueIds (f : Function) : f.valueIds.Nodup :=
  List.nodup_range.map fun _ _ h => congrArg Handle.index h

theorem mem_drop_valueIds {n : Nat} : v ∈ f.valueIds.drop n ↔ n ≤ v.index ∧ v.index < f.values.size := by
  unfold valueIds
  rw [← List.map_drop, List.range_eq_range', List.drop_range', List.mem_map]
  constructor
  · rintro ⟨i, hi, rfl⟩
    have := List.mem_range'_1.mp hi
    dsimp only
    omega
  · rintro ⟨hn, hlt⟩
    exact ⟨v.index, List.mem_range'_1.mpr (by omega), rfl⟩

section Push

variable (hg : g.values = f.values.push d)
include hg

theorem valueIds_of_push : g.valueIds = f.valueIds ++ [f.nextValue] := by
  unfold valueIds
  rw [hg, Array.size_push, List.range_succ, List.map_append]
  rfl

theorem isAlloca_of_push (hv : v.index < f.values.size) : g.isAlloca v = f.isAlloca v := by
  unfold isAlloca definition?
  rw [hg, Array.getElem?_push, if_neg (Nat.ne_of_lt hv)]

theorem isAlloca_next : g.isAlloca f.nextValue = d.op.isAlloca := by
  unfold isAlloca definition? nextValue
  rw [hg, Array.getElem?_push_size]
  rfl

theorem allocas_of_push : g.allocas = f.allocas ++ if d.op.isAlloca then [f.nextValue] else [] := by
  have hold : f.valueIds.filter g.isAlloca = f.valueIds.filter f.isAlloca :=
    List.filter_congr fun v hv => isAlloca_of_push hg (mem_valueIds.mp hv)
  unfold allocas
  rw [valueIds_of_push hg, List.filter_append, hold]
  simp only [List.filter_cons, isAlloca_next hg, List.filter_nil]

end Push

theorem allocas_shell (name : String) (params : List Ty) (ret : Ty) (linkage : Linkage) :
    (shell name params ret linkage).allocas = [] := by
  refine List.filter_eq_nil_iff.mpr fun v _ => ?_
  unfold isAlloca definition? shell paramDefinitions
  rw [List.getElem?_toArray, List.getElem?_map]
  cases params.zipIdx[v.index]? <;> exact Bool.false_ne_true

/-- No instruction makes a stack slot. -/
theorem isAlloca_instruction (f : Function) (i : Instruction) :
    (i.definition f).op.isAlloca = false := by
  cases i <;> rfl

/-! ## Values in blocks -/

theorem mem_listed_iff : v ∈ f.listed ↔ ∃ b block, f.block? b = some block ∧ v ∈ block.insts := by
  unfold listed
  rw [List.mem_flatMap]
  constructor
  · rintro ⟨block, hblock, hv⟩
    obtain ⟨i, hi⟩ := List.getElem?_of_mem hblock
    exact ⟨⟨i⟩, block, by rw [← hi, Array.getElem?_toList]; rfl, Array.mem_toList_iff.mp hv⟩
  · rintro ⟨b, block, hb, hv⟩
    exact ⟨block, Array.mem_toList_iff.mpr (Array.mem_of_getElem? hb), Array.mem_toList_iff.mpr hv⟩

theorem mem_listed_of_body (hv : v ∈ f.body b) : v ∈ f.listed := by
  obtain ⟨block, hblock⟩ := (hasBlock_of_mem_body hv).exists_block
  refine mem_listed_iff.mpr ⟨b, block, hblock, Array.mem_toList_iff.mp ?_⟩
  rw [insts_eq hblock]
  exact List.mem_append_right _ hv

/-- Where no value is listed twice, a value is in one block, and once there. -/
theorem once_of_nodup (h : f.listed.Nodup) {block : Block} (hb : f.block? b = some block)
    (hv : v ∈ block.insts) :
    block.insts.toList.count v = 1 ∧
      ∀ c other, f.block? c = some other → v ∈ other.insts → c = b := by
  obtain ⟨hnodup, hdisjoint⟩ := List.nodup_flatMap.mp h
  refine ⟨List.count_eq_one_of_mem (hnodup block ?_) (Array.mem_toList_iff.mpr hv), ?_⟩
  · exact Array.mem_toList_iff.mpr (Array.mem_of_getElem? hb)
  · intro c other hc hother
    -- two blocks at different places share no value
    have apart {i j : Nat} {x y : Block} (hij : i < j) (hx : f.blocks[i]? = some x)
        (hy : f.blocks[j]? = some y) (hvx : v ∈ x.insts) : v ∉ y.insts := by
      rw [← Array.getElem?_toList, List.getElem?_eq_some_iff] at hx hy
      obtain ⟨hi, rfl⟩ := hx
      obtain ⟨hj, rfl⟩ := hy
      have hd := List.pairwise_iff_getElem.mp hdisjoint i j hi hj hij
      exact fun hvy => hd (Array.mem_toList_iff.mpr hvx) (Array.mem_toList_iff.mpr hvy)
    rcases Nat.lt_trichotomy c.index b.index with hlt | heq | hlt
    · exact absurd hv (apart hlt hc hb hother)
    · cases b
      cases c
      exact congrArg Handle.mk heq
    · exact absurd hother (apart hlt hb hc hv)

/-! ## The order -/

/-- The order of values: parameters lead the table and are in no block, all others are listed once, the
slots are the stack slots as they were created, and bodies list the rest as it was created. -/
structure Arranged (f : Function) : Prop where
  shaped : f.Shaped
  params_le : f.params.length ≤ f.values.size
  leading : ∀ {i t}, f.params[i]? = some t → f.definition? (param i) = some ⟨.param i, t⟩
  listed : f.listed.Perm (f.valueIds.drop f.params.length)
  slots : f.slots = f.allocas
  plain : ∀ {b v}, v ∈ f.body b → f.isAlloca v = false
  ascending : ∀ b, (f.body b).Pairwise fun v w => v.index < w.index

namespace Arranged

theorem nodup_listed (h : f.Arranged) : f.listed.Nodup :=
  h.listed.nodup_iff.mpr (f.nodup_valueIds.sublist (List.drop_sublist _ _))

theorem mem_listed (h : f.Arranged) : v ∈ f.listed ↔ f.params.length ≤ v.index ∧ v.index < f.values.size :=
  h.listed.mem_iff.trans mem_drop_valueIds

theorem index_lt_of_body (h : f.Arranged) (hv : v ∈ f.body b) : v.index < f.values.size :=
  (h.mem_listed.mp (mem_listed_of_body hv)).2

/-- With a first block a shell is ready for construction. -/
theorem shell (name : String) (params : List Ty) (ret : Ty) (linkage : Linkage) (word : String) :
    ((Function.shell name params ret linkage).addBlock word).Arranged where
  shaped := by
    refine ⟨by simp [Function.shell], fun block _ => ?_⟩
    exact Nat.zero_le _
  params_le := by simp [Function.shell, paramDefinitions]
  leading := by
    intro i t ht
    have ht : params[i]? = some t := ht
    simp [definition?, Function.shell, Function.addBlock, paramDefinitions, param, ht]
  listed := by
    have hnone : (Function.shell name params ret linkage).listed = [] := rfl
    have hdrop : (Function.shell name params ret linkage).valueIds.drop params.length = [] :=
      List.drop_of_length_le (by simp [valueIds, Function.shell, paramDefinitions])
    rw [listed_addBlock, hnone]
    exact .of_eq hdrop.symm
  slots := (allocas_shell name params ret linkage).symm
  plain := by
    intro b v hv
    rw [body_addBlock, body_of_not_hasBlock (by simp [HasBlock, Function.shell])] at hv
    cases hv
  ascending := by
    intro b
    rw [body_addBlock, body_of_not_hasBlock (by simp [HasBlock, Function.shell])]
    exact List.Pairwise.nil

section Push

variable (h : f.Arranged) (hp : g.params = f.params) (hg : g.values = f.values.push d)
include h hp hg

theorem params_le_of_push : g.params.length ≤ g.values.size := by
  rw [hp, hg, Array.size_push]
  exact Nat.le_succ_of_le h.params_le

theorem listed_of_push (hl : g.listed.Perm (f.nextValue :: f.listed)) :
    g.listed.Perm (g.valueIds.drop g.params.length) := by
  have hle : f.params.length ≤ f.valueIds.length := by
    simpa [valueIds] using h.params_le
  rw [hp, valueIds_of_push hg, List.drop_append_of_le_length hle]
  refine hl.trans ((h.listed.cons _).trans ?_)
  exact (List.perm_append_singleton _ _).symm

end Push

theorem append (h : f.Arranged) (hb : f.HasBlock b) (hd : d.op.isAlloca = false) :
    (f.append b d).Arranged where
  shaped := shaped_append d h.shaped
  params_le := h.params_le_of_push rfl (values_append f b d)
  leading := fun ht => definition?_of_push (values_append f b d) (h.leading ht)
  listed := h.listed_of_push rfl (values_append f b d) (listed_append hb d)
  slots := by
    rw [slots_append d h.shaped, allocas_of_push (values_append f b d), hd, h.slots]
    simp
  plain := by
    intro c v hv
    rcases (mem_body_append d h.shaped hb).mp hv with hold | ⟨-, rfl⟩
    · rw [isAlloca_of_push (values_append f b d) (h.index_lt_of_body hold), h.plain hold]
    · rw [isAlloca_next (values_append f b d), hd]
  ascending := by
    intro c
    rw [body_append d h.shaped hb]
    split
    · refine List.pairwise_append.mpr ⟨h.ascending b, List.pairwise_singleton _ _, ?_⟩
      intro v hv w hw
      rw [List.mem_singleton.mp hw]
      exact h.index_lt_of_body hv
    · exact h.ascending c

theorem addSlot (h : f.Arranged) (t : Ty) : (f.addSlot t).Arranged where
  shaped := shaped_addSlot t h.shaped
  params_le := h.params_le_of_push rfl (values_addSlot f t)
  leading := fun ht => definition?_of_push (values_addSlot f t) (h.leading ht)
  listed := h.listed_of_push rfl (values_addSlot f t) (listed_addSlot_of_shaped h.shaped t)
  slots := by
    rw [slots_addSlot t h.shaped, allocas_of_push (values_addSlot f t), h.slots]
    rfl
  plain := by
    intro b v hv
    rw [body_addSlot t h.shaped] at hv
    rw [isAlloca_of_push (values_addSlot f t) (h.index_lt_of_body hv), h.plain hv]
  ascending := by
    intro b
    rw [body_addSlot t h.shaped]
    exact h.ascending b

theorem addBlock (h : f.Arranged) (word : String) : (f.addBlock word).Arranged where
  shaped := shaped_addBlock word h.shaped
  params_le := h.params_le
  leading := h.leading
  listed := by
    rw [listed_addBlock]
    exact h.listed
  slots := by
    rw [slots_addBlock word h.shaped]
    exact h.slots
  plain := by
    intro b v hv
    rw [body_addBlock] at hv
    exact h.plain hv
  ascending := by
    intro b
    rw [body_addBlock]
    exact h.ascending b

theorem terminate (h : f.Arranged) (b : BlockId) (t : Terminator) : (f.terminate b t).Arranged where
  shaped := shaped_terminate t h.shaped
  params_le := h.params_le
  leading := h.leading
  listed := by
    rw [listed_terminate]
    exact h.listed
  slots := by
    rw [slots_terminate]
    exact h.slots
  plain := by
    intro c v hv
    rw [body_terminate] at hv
    exact h.plain hv
  ascending := by
    intro c
    rw [body_terminate]
    exact h.ascending c

/-- Every step keeps the order. -/
theorem perform (h : f.Arranged) {step : BodyStep} (hb : ∀ b ∈ step.block?, f.HasBlock b) :
    (f.perform step).Arranged := by
  cases step with
  | addBlock word => exact h.addBlock word
  | emit b i => exact h.append (hb b rfl) (isAlloca_instruction f i)
  | slot b t => exact h.addSlot t
  | finish b t => exact h.terminate b t

theorem construct (h : f.Arranged) {steps : List BodyStep} (hsteps : f.Admits steps) :
    (f.construct steps).Arranged := by
  induction steps generalizing f with
  | nil => exact h
  | cons step steps ih => exact ih (h.perform hsteps.1) hsteps.2

theorem length_allocas (h : f.Arranged) : f.allocas.length = f.entryAllocas := by
  obtain ⟨block, hblock, hle⟩ := h.shaped.exists_first
  rw [← h.slots, Function.slots, hblock]
  exact List.length_take_of_le hle

/-- The first block has the stack slots at its head, and no other block has any. -/
theorem insts_eq (h : f.Arranged) {block : Block} (hb : f.block? b = some block) :
    block.insts.toList = (if b = entry then f.allocas else []) ++ f.body b := by
  have hentry : b = entry ↔ b.index = 0 := by
    cases b
    simp [entry]
  rw [Function.insts_eq hb, h.slots]
  simp only [hentry]

theorem first_block (h : f.Arranged) :
    ∃ block, f.block? entry = some block ∧ block.insts.toList.take f.entryAllocas = f.allocas ∧
      ∀ v ∈ block.insts.toList.drop f.entryAllocas, f.isAlloca v = false := by
  obtain ⟨block, hblock, -⟩ := h.shaped.exists_first
  have hinsts := h.insts_eq (b := entry) hblock
  rw [if_pos rfl] at hinsts
  refine ⟨block, hblock, ?_, fun v hv => ?_⟩
  · rw [hinsts, List.take_left' h.length_allocas]
  · rw [hinsts, List.drop_left' h.length_allocas] at hv
    exact h.plain hv

theorem other_block (h : f.Arranged) (hne : b ≠ entry) {block : Block} (hb : f.block? b = some block)
    (hv : v ∈ block.insts) : f.isAlloca v = false := by
  have hinsts := h.insts_eq hb
  rw [if_neg hne, List.nil_append] at hinsts
  refine h.plain (b := b) ?_
  rw [← hinsts]
  exact Array.mem_toList_iff.mpr hv

/-- Without the stack slots a block is its body. -/
theorem filter_insts (h : f.Arranged) {block : Block} (hb : f.block? b = some block) :
    block.insts.toList.filter (fun v => !f.isAlloca v) = f.body b := by
  have hslots : (if b = entry then f.allocas else []).filter (fun v => !f.isAlloca v) = [] := by
    refine List.filter_eq_nil_iff.mpr fun v hv => ?_
    split at hv
    · simp [(List.mem_filter.mp hv).2]
    · cases hv
  have hbody : (f.body b).filter (fun v => !f.isAlloca v) = f.body b :=
    List.filter_eq_self.mpr fun v hv => by simp [h.plain hv]
  rw [h.insts_eq hb, List.filter_append, hslots, hbody, List.nil_append]

end Arranged

theorem params_perform (f : Function) (step : BodyStep) : (f.perform step).params = f.params := by
  cases step <;> rfl

theorem params_construct (f : Function) (steps : List BodyStep) :
    (f.construct steps).params = f.params := by
  induction steps generalizing f with
  | nil => rfl
  | cons step steps ih => exact (ih (f.perform step)).trans (f.params_perform step)

/-- **The order of values.** A function is defined, gets a first block, and is built up by steps that
stand in blocks it has by then. Then its first values are the parameters in order, and they are in no
block; every other value is once in one block and in no other. The head of the first block, as long as
the number of slots says, is all stack slots in the order of creation, and behind it and in the other
blocks there are none. What is no stack slot stands in each block in the order of creation. -/
theorem construction_arranges {m : Module} {name : String} {params : List Ty} {ret : Ty}
    {linkage : Linkage} {f : Function} {word : String} {steps : List BodyStep}
    (hf : (m.define name params ret linkage).2.function? (m.define name params ret linkage).1 = some f)
    (hsteps : (f.addBlock word).Admits steps) :
    let g := (f.addBlock word).construct steps
    (∀ i t, params[i]? = some t → g.definition? (param i) = some ⟨.param i, t⟩) ∧
    (∀ b block, g.block? b = some block → ∀ v ∈ block.insts,
      params.length ≤ v.index ∧ v.index < g.values.size) ∧
    (∀ v : ValueId, params.length ≤ v.index → v.index < g.values.size →
      ∃ b block, g.block? b = some block ∧ block.insts.toList.count v = 1 ∧
        ∀ c other, g.block? c = some other → v ∈ other.insts → c = b) ∧
    (∃ block, g.block? entry = some block ∧
      block.insts.toList.take g.entryAllocas = g.allocas ∧ g.allocas.length = g.entryAllocas ∧
      ∀ v ∈ block.insts.toList.drop g.entryAllocas, g.isAlloca v = false) ∧
    (∀ b block, b ≠ entry → g.block? b = some block → ∀ v ∈ block.insts, g.isAlloca v = false) ∧
    ∀ b block, g.block? b = some block →
      (block.insts.toList.filter fun v => !g.isAlloca v).Pairwise fun v w => v.index < w.index := by
  intro g
  obtain rfl : Function.shell name params ret linkage = f :=
    Option.some.inj ((m.function?_addFunction_next _).symm.trans hf)
  have hg : g.Arranged := (Arranged.shell name params ret linkage word).construct hsteps
  have hparams : g.params = params := params_construct _ steps
  refine ⟨fun i t ht => hg.leading (by rwa [hparams]), fun b block hb v hv => ?_, fun v hle hlt => ?_,
    ?_, fun b block hne hb v hv => hg.other_block hne hb hv, fun b block hb => ?_⟩
  · rw [← hparams]
    exact hg.mem_listed.mp (mem_listed_iff.mpr ⟨b, block, hb, hv⟩)
  · rw [← hparams] at hle
    obtain ⟨b, block, hb, hv⟩ := mem_listed_iff.mp (hg.mem_listed.mpr ⟨hle, hlt⟩)
    exact ⟨b, block, hb, once_of_nodup hg.nodup_listed hb hv⟩
  · obtain ⟨block, hblock, htake, hdrop⟩ := hg.first_block
    exact ⟨block, hblock, htake, hg.length_allocas, hdrop⟩
  · rw [hg.filter_insts hb]
    exact hg.ascending b

/-- Slots are added from the second block while the first has ended, and from the first again. -/
def interleavedSteps : List BodyStep :=
  [.emit ⟨0⟩ (.const (.i32 1)), .addBlock "body", .finish ⟨0⟩ (.br ⟨1⟩), .slot ⟨1⟩ .i32,
    .emit ⟨1⟩ (.store ⟨2⟩ ⟨3⟩), .slot ⟨0⟩ .f64, .emit ⟨1⟩ (.binary .add ⟨0⟩ ⟨2⟩),
    .finish ⟨1⟩ (.ret (some ⟨6⟩))]

theorem construction_arranges_interleaved :
    let f := Function.shell "f" [.i32, .f64] .i32 .internal
    let g := (f.addBlock "entry").construct interleavedSteps
    (f.addBlock "entry").Admits interleavedSteps ∧
    g.blocks.toList.map (fun block => block.insts.toList.map (·.index)) = [[3, 5, 2], [4, 6]] ∧
    g.values.size = 7 ∧ g.entryAllocas = 2 ∧ g.allocas.length = 2 ∧
    (∀ v : ValueId, 2 ≤ v.index → v.index < 7 →
      ∃ b block, g.block? b = some block ∧ block.insts.toList.count v = 1) ∧
    ∀ b block, g.block? b = some block →
      (block.insts.toList.filter fun v => !g.isAlloca v).Pairwise fun v w => v.index < w.index := by
  intro f g
  have hsteps : (f.addBlock "entry").Admits interleavedSteps := by decide +kernel
  have hsize : g.values.size = 7 := by decide +kernel
  have hcount : g.entryAllocas = 2 := by decide +kernel
  have hf : (({ name := "m" } : Module).define "f" [.i32, .f64] .i32 .internal).2.function? ⟨0⟩ = some f :=
    rfl
  obtain ⟨-, -, honce, ⟨-, -, -, hlength, -⟩, -, hascending⟩ := construction_arranges hf hsteps
  refine ⟨hsteps, by decide +kernel, hsize, hcount, hlength.trans hcount, fun v hle hlt => ?_, hascending⟩
  obtain ⟨b, block, hb, hv, -⟩ := honce v hle (hsize ▸ hlt)
  exact ⟨b, block, hb, hv⟩

end Function

end TypedLowering.Ssa
