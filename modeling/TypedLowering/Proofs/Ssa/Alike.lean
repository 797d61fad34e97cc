import Mathlib.Data.List.Forall2
import TypedLowering.Proofs.Ssa.Calls

/-!
Functions of two modules that differ in the numbers of functions, structs and constant arrays only.
Calls are compared by the names of the callees, references to structs and arrays by what these hold.
The steps that build up a body keep two functions alike, and so does whatever is added to the modules.
-/
namespace TypedLowering.Ssa
set_option autoImplicit false

/-! ## Modules that grow -/

theorem getElem?_push_of_some {α : Type} {xs : Array α} {i : Nat} {a b : α}
    (h : xs[i]? = some a) : (xs.push b)[i]? = some a := by
  obtain ⟨hi, rfl⟩ := Array.getElem?_eq_some_iff.mp h
  rw [Array.getElem?_push_lt hi]

/-- What calls see of a function, and whether it is only declared. -/
def Function.heading (f : Function) : String × List Ty × Ty × Bool × Bool :=
  (f.name, f.params, f.ret, f.variadic, f.isDeclaration)

namespace Function

variable {f g : Function}

theorem name_of_heading (h : g.heading = f.heading) : g.name = f.name := congrArg Prod.fst h

theorem ret_of_heading (h : g.heading = f.heading) : g.ret = f.ret := congrArg (·.2.2.1) h

theorem isDeclaration_of_heading (h : g.heading = f.heading) :
    g.isDeclaration = f.isDeclaration := congrArg (·.2.2.2.2) h

/-- A change of functions that leaves their headings alone and takes no block away. -/
structure Preserving (g : Function → Function) : Prop where
  heading : ∀ f, (g f).heading = f.heading
  linkage : ∀ f, (g f).linkage = f.linkage
  blocks : ∀ f b, f.HasBlock b → (g f).HasBlock b

theorem preserving_append (b : BlockId) (d : Definition) : Preserving fun f => f.append b d :=
  ⟨fun _ => rfl, fun _ => rfl, fun f _ => (f.carries_append b d).blocks⟩

theorem Edit.preserving {b : BlockId} {g : Function → Function} (h : Edit b g) : Preserving g :=
  ⟨fun _ => by cases h <;> rfl, fun _ => by cases h <;> rfl, fun f _ => (h.carries f).blocks⟩

end Function

namespace Module

variable {m m' m'' : Module}

theorem functionRet_of_function? {id : FunctionId} {f : Function} (h : m.function? id = some f) :
    m.functionRet id = f.ret := by
  unfold functionRet
  rw [show m.functions[id.index]? = some f from h]

theorem functionName_of_function? {id : FunctionId} {f : Function} (h : m.function? id = some f) :
    m.functionName id = f.name := by
  unfold functionName
  rw [show m.functions[id.index]? = some f from h]

/-- Everything of the first module is in the second one under the same number; of functions the
headings and the blocks. -/
structure Embeds (m m' : Module) : Prop where
  function : ∀ {id f}, m.function? id = some f →
    ∃ f', m'.function? id = some f' ∧ f'.heading = f.heading ∧ ∀ {b}, f.HasBlock b → f'.HasBlock b
  struct : ∀ {i d}, m.struct? i = some d → m'.struct? i = some d
  global : ∀ {i g}, m.global? i = some g → m'.global? i = some g

namespace Embeds

theorem of_eq (hf : m'.functions = m.functions) (hs : m'.structs = m.structs)
    (hg : m'.globals = m.globals) : m.Embeds m' where
  function := fun {_ f} h => ⟨f, by rwa [function?, hf], rfl, fun hb => hb⟩
  struct := fun h => by rwa [struct?, hs]
  global := fun h => by rwa [global?, hg]

theorem refl (m : Module) : m.Embeds m := of_eq rfl rfl rfl

theorem trans (h : m.Embeds m') (h' : m'.Embeds m'') : m.Embeds m'' where
  function := fun hf => by
    obtain ⟨f', hf', he, hb⟩ := h.function hf
    obtain ⟨f'', hf'', he', hb'⟩ := h'.function hf'
    exact ⟨f'', hf'', he'.trans he, fun hx => hb' (hb hx)⟩
  struct := fun hs => h'.struct (h.struct hs)
  global := fun hg => h'.global (h.global hg)

theorem modifyFunction (m : Module) (id : FunctionId) {g : Function → Function}
    (hg : Function.Preserving g) : m.Embeds (m.modifyFunction id g) where
  function := fun {id' f} hf => by
    by_cases hid : id = id'
    · subst hid
      refine ⟨g f, ?_, hg.heading f, fun hx => hg.blocks f _ hx⟩
      simp only [function?, Module.modifyFunction, Array.getElem?_modify, if_true] at hf ⊢
      rw [hf]
      rfl
    · refine ⟨f, ?_, rfl, fun hx => hx⟩
      have hne : id.index ≠ id'.index := fun h => hid (congrArg Handle.mk h)
      simpa only [function?, Module.modifyFunction, Array.getElem?_modify, if_neg hne] using hf
  struct := fun hs => hs
  global := fun hg => hg

theorem addFunction (m : Module) (f : Function) : m.Embeds (m.addFunction f) where
  function := fun {_ k} hk => ⟨k, getElem?_push_of_some hk, rfl, fun hb => hb⟩
  struct := id
  global := id

theorem addStruct (m : Module) (name : String) (fields : List Ty) :
    m.Embeds (m.addStruct name fields).2 where
  function := fun {_ f} hf => ⟨f, hf, rfl, fun hb => hb⟩
  struct := fun hs => getElem?_push_of_some hs
  global := id

theorem addGlobal (m : Module) (name : String) (t : Ty) (data : List Constant) :
    m.Embeds (m.addGlobal name t data).2 where
  function := fun {_ f} hf => ⟨f, hf, rfl, fun hb => hb⟩
  struct := id
  global := fun hg => getElem?_push_of_some hg

end Embeds

end Module

/-! ## Instructions -/

/-- Instructions that refer to nothing outside of their function. -/
def Op.isLocal : Op → Bool
  | .call _ _ _ | .fieldPtr _ _ _ | .globalAddr _ => false
  | _ => true

/-- Instructions that do the same in two modules. -/
inductive Op.Alike (m m' : Module) : Op → Op → Prop
  | same {op : Op} (h : op.isLocal = true) : Alike m m' op op
  | fieldPtr (base : ValueId) (index : Nat) {i j : StructId} {d : StructDef}
    (hi : m.struct? i = some d) (hj : m'.struct? j = some d) :
    Alike m m' (.fieldPtr base i index) (.fieldPtr base j index)
  | globalAddr {i j : GlobalId} {g k : Global} (hi : m.global? i = some g)
    (hj : m'.global? j = some k) (htype : k.elemType = g.elemType) (hdata : k.data = g.data) :
    Alike m m' (.globalAddr i) (.globalAddr j)
  | call {i j : FunctionId} {f k : Function} (hi : m.function? i = some f)
    (hj : m'.function? j = some k) (hname : k.name = f.name) (args : List ValueId)
    (attrs : Attributes) : Alike m m' (.call i args attrs) (.call j args attrs)

/-- Instructions with results of the same type that do the same in two modules. -/
structure Definition.Alike (m m' : Module) (d d' : Definition) : Prop where
  op : d.op.Alike m m' d'.op
  type : d'.type = d.type

variable {m m' n n' : Module}

theorem Op.Alike.mono (hm : m.Embeds n) (hm' : m'.Embeds n') {op op' : Op}
    (h : op.Alike m m' op') : op.Alike n n' op' := by
  cases h with
  | same hlocal => exact .same hlocal
  | fieldPtr base index hi hj => exact .fieldPtr base index (hm.struct hi) (hm'.struct hj)
  | globalAddr hi hj htype hdata => exact .globalAddr (hm.global hi) (hm'.global hj) htype hdata
  | call hi hj hname args attrs =>
    obtain ⟨f, hf, hh, -⟩ := hm.function hi
    obtain ⟨k, hk, hh', -⟩ := hm'.function hj
    refine .call hf hk ?_ args attrs
    exact (Function.name_of_heading hh').trans (hname.trans (Function.name_of_heading hh).symm)

theorem Definition.Alike.mono (hm : m.Embeds n) (hm' : m'.Embeds n') {d d' : Definition}
    (h : d.Alike m m' d') : d.Alike n n' d' :=
  ⟨h.op.mono hm hm', h.type⟩

/-! ## Bodies -/

/-- Functions with the same parameters and the same blocks, whose instructions do the same one by
one. -/
structure Function.Alike (m m' : Module) (f f' : Function) : Prop where
  params : f'.params = f.params
  ret : f'.ret = f.ret
  blocks : f'.blocks = f.blocks
  entryAllocas : f'.entryAllocas = f.entryAllocas
  values : List.Forall₂ (Definition.Alike m m') f.values.toList f'.values.toList

namespace Function.Alike

variable {f f' : Function} {d d' : Definition}

theorem mono (hm : m.Embeds n) (hm' : m'.Embeds n') (h : f.Alike m m' f') : f.Alike n n' f' :=
  { h with values := h.values.imp fun _ _ hd => hd.mono hm hm' }

/-- Functions without blocks. -/
theorem shell (name name' : String) (params : List Ty) (ret : Ty) (linkage linkage' : Linkage) :
    (Function.shell name params ret linkage).Alike m m' (.shell name' params ret linkage') where
  params := rfl
  ret := rfl
  blocks := rfl
  entryAllocas := rfl
  values := by
    refine List.forall₂_same.mpr fun d hd => ?_
    obtain ⟨⟨t, i⟩, -, rfl⟩ := List.mem_map.mp (show d ∈ paramDefinitions params from hd)
    exact ⟨.same rfl, rfl⟩

section Queries

variable (h : f.Alike m m' f')

include h

theorem nextValue_eq : f'.nextValue = f.nextValue := by
  have hl := h.values.length_eq
  rw [Array.length_toList, Array.length_toList] at hl
  rw [nextValue, nextValue, hl]

theorem nextBlock_eq : f'.nextBlock = f.nextBlock := by rw [nextBlock, nextBlock, h.blocks]

theorem isTerminated_eq (b : BlockId) : f'.isTerminated b = f.isTerminated b := by
  rw [isTerminated, isTerminated, h.blocks]

/-- Values with the same number have definitions that do the same. -/
theorem definition?_rel (v : ValueId) :
    Option.Rel (Definition.Alike m m') (f.definition? v) (f'.definition? v) := by
  have hv := h.values
  unfold definition?
  rw [← Array.getElem?_toList, ← Array.getElem?_toList]
  generalize f.values.toList = l at hv
  generalize f'.values.toList = l' at hv
  generalize v.index = i
  induction hv generalizing i with
  | nil => exact .none
  | cons hd _ ih =>
    cases i with
    | zero => exact .some hd
    | succ i => exact ih i

theorem valueType_eq (v : ValueId) : f'.valueType v = f.valueType v := by
  have hd := h.definition?_rel v
  unfold definition? at hd
  unfold valueType
  generalize f.values[v.index]? = x at hd
  generalize f'.values[v.index]? = x' at hd
  cases hd with
  | none => rfl
  | some hd => exact hd.type

/-! ### Steps -/

theorem define (hd : d.Alike m m' d') {g g' : Function} (hparams : g'.params = g.params)
    (hret : g'.ret = g.ret) (hblocks : g'.blocks = g.blocks)
    (hallocas : g'.entryAllocas = g.entryAllocas) (hv : g.values = f.values.push d)
    (hv' : g'.values = f'.values.push d') : g.Alike m m' g' where
  params := hparams
  ret := hret
  blocks := hblocks
  entryAllocas := hallocas
  values := by
    rw [hv, hv', Array.toList_push, Array.toList_push]
    exact List.rel_append h.values (.cons hd .nil)

theorem append (hd : d.Alike m m' d') (b : BlockId) :
    (f.append b d).Alike m m' (f'.append b d') := by
  refine h.define hd h.params h.ret ?_ h.entryAllocas (values_append f b d) (values_append f' b d')
  unfold Function.append Function.define Function.place
  rw [h.nextValue_eq, h.blocks]

theorem addSlot (t : Ty) : (f.addSlot t).Alike m m' (f'.addSlot t) := by
  refine h.define (d := ⟨.alloca t, .ptr⟩) ⟨.same rfl, rfl⟩ h.params h.ret ?_ ?_ rfl rfl
  · unfold Function.addSlot Function.define Function.placeSlot
    rw [h.nextValue_eq, h.blocks, h.entryAllocas]
  · unfold Function.addSlot Function.define Function.placeSlot
    rw [h.entryAllocas]

theorem addBlock (word : String) : (f.addBlock word).Alike m m' (f'.addBlock word) where
  params := h.params
  ret := h.ret
  blocks := by rw [Function.addBlock, Function.addBlock, h.blocks]
  entryAllocas := h.entryAllocas
  values := h.values

theorem terminate (b : BlockId) (t : Terminator) :
    (f.terminate b t).Alike m m' (f'.terminate b t) where
  params := h.params
  ret := h.ret
  blocks := by rw [Function.terminate, Function.terminate, h.blocks]
  entryAllocas := h.entryAllocas
  values := h.values

end Queries

end Function.Alike

end TypedLowering.Ssa
