import TypedLowering.Proofs.Lowering.Request
import TypedLowering.Proofs.Options.Twin

/-!
Two runs that do the same, step by step, while the function they started from has one name in the
first module and another one in the second. Nothing is seen of the names as long as the function is
not requested again; trees may have other types, if the frames resolve them alike. So the runs end in
the same way, with the same error if they fail.
-/
namespace TypedLowering
set_option autoImplicit false
open Ssa

/-! ## Units -/

/-- The same function, under the same name or under two of the given names. -/
structure Ssa.Function.Renamed (N : String → Prop) (f f' : Function) : Prop where
  eq : f' = { f with name := f'.name }
  name : f'.name = f.name ∨ N f.name ∧ N f'.name

/-- The same unit, up to what goes by the given names. -/
structure UnitState.Renamed (N : String → Prop) (u u' : UnitState) : Prop where
  function : ∀ id, Option.Rel (Function.Renamed N) (u.module.function? id) (u'.module.function? id)
  next : u'.module.nextFunction = u.module.nextFunction
  lookup : ∀ {name}, ¬ N name → u'.module.lookup name = u.module.lookup name
  table : ∀ {symbol}, ¬ N symbol → u'.specializations.get? symbol = u.specializations.get? symbol
  structs : u'.module.structs = u.module.structs
  globals : u'.module.globals = u.module.globals
  header : u'.arrayHeader = u.arrayHeader
  descriptors : u'.descriptors = u.descriptors

namespace Ssa.Function

variable {N : String → Prop} {f f' : Function}

theorem Renamed.refl (f : Function) : f.Renamed N f := ⟨rfl, .inl rfl⟩

theorem Renamed.symm (h : f.Renamed N f') : f'.Renamed N f where
  eq := by
    rw [h.eq]
  name := h.name.imp Eq.symm And.symm

/-- With no names given, nothing is renamed. -/
theorem Renamed.eq_of_none (h : f.Renamed (fun _ => False) f') : f' = f := by
  obtain ⟨heq, hname | ⟨hno, -⟩⟩ := h
  · rw [heq, hname]
  · exact hno.elim

/-- A change of functions that has nothing to do with their names. -/
def Nameless (g : Function → Function) : Prop :=
  ∀ f name, g { f with name } = { g f with name } ∧ (g f).name = f.name

theorem Renamed.map {g : Function → Function} (hg : Nameless g) (h : f.Renamed N f') :
    (g f).Renamed N (g f') := by
  obtain ⟨heq, hname⟩ := h
  have hsame : (g f').name = f'.name := (hg f' f'.name).2
  refine ⟨?_, ?_⟩
  · rw [hsame]
    exact (congrArg g heq).trans (hg f f'.name).1
  · rwa [hsame, (hg f f.name).2]

theorem Edit.nameless {b : BlockId} {g : Function → Function} (h : Edit b g) : Nameless g := by
  intro f name
  cases h <;> exact ⟨rfl, rfl⟩

theorem nameless_append (b : BlockId) (d : Definition) : Nameless fun f => f.append b d :=
  fun _ _ => ⟨rfl, rfl⟩

end Ssa.Function

theorem Ssa.Module.functionRet_eq (m : Module) (id : FunctionId) :
    m.functionRet id = (m.function? id).elim .void (·.ret) := by
  unfold Module.functionRet Module.function?
  cases m.functions[id.index]? <;> rfl

namespace UnitState.Renamed

variable {N : String → Prop} {u u' : UnitState}

/-- Tables that agree on the other names go on to do so. -/
theorem get?_insert {α : Type} {d d' : Dict String α}
    (h : ∀ {name}, ¬ N name → d'.get? name = d.get? name) {key key' name : String}
    (hkey : key' = key ∨ N key ∧ N key') (hn : ¬ N name) (a : α) :
    (d'.insert key' a).get? name = (d.insert key a).get? name := by
  have other (hne : key ≠ name) (hne' : key' ≠ name) :
      (d'.insert key' a).get? name = (d.insert key a).get? name := by
    rw [Dict.get?_insert_of_ne _ _ hne, Dict.get?_insert_of_ne _ _ hne', h hn]
  rcases hkey with rfl | ⟨hkey, hkey'⟩
  · by_cases hname : key' = name
    · subst hname
      rw [Dict.get?_insert_self, Dict.get?_insert_self]
    · exact other hname hname
  · exact other (fun heq => hn (heq ▸ hkey)) fun heq => hn (heq ▸ hkey')

theorem refl (u : UnitState) : u.Renamed N u where
  function := fun id => by
    cases u.module.function? id with
    | none => exact .none
    | some f => exact .some (.refl f)
  next := rfl
  lookup := fun _ => rfl
  table := fun _ => rfl
  structs := rfl
  globals := rfl
  header := rfl
  descriptors := rfl

theorem symm (h : u.Renamed N u') : u'.Renamed N u where
  function := fun id => by
    have hf := h.function id
    generalize u.module.function? id = a, u'.module.function? id = a' at hf ⊢
    cases hf with
    | none => exact .none
    | some hf => exact .some hf.symm
  next := h.next.symm
  lookup := fun hn => (h.lookup hn).symm
  table := fun hn => (h.table hn).symm
  structs := h.structs.symm
  globals := h.globals.symm
  header := h.header.symm
  descriptors := h.descriptors.symm

/-- With no names given, the modules have the same contents. -/
theorem embeds (h : u.Renamed (fun _ => False) u') : u.module.Embeds u'.module where
  function := fun {id f} hf => by
    have hsame := h.function id
    rw [hf] at hsame
    generalize u'.module.function? id = a' at hsame
    cases hsame with
    | some hf => exact ⟨_, rfl, by rw [hf.eq_of_none], fun hb => by rwa [hf.eq_of_none]⟩
  struct := fun hs => by rwa [Module.struct?, h.structs]
  global := fun hg => by rwa [Module.global?, h.globals]

theorem modifyFunction (h : u.Renamed N u') (id : FunctionId) {g : Function → Function}
    (hg : Function.Nameless g) : Renamed N { u with module := u.module.modifyFunction id g }
      { u' with module := u'.module.modifyFunction id g } where
  function := fun other => by
    rw [Module.function?_modifyFunction, Module.function?_modifyFunction]
    split
    · have hf := h.function other
      generalize u.module.function? other = a, u'.module.function? other = a' at hf
      cases hf with
      | none => exact .none
      | some hf => exact .some (hf.map hg)
    · exact h.function other
  next := by
    have hsize := congrArg Handle.index h.next
    show (⟨(u'.module.functions.modify id.index g).size⟩ : FunctionId) =
      ⟨(u.module.functions.modify id.index g).size⟩
    rw [Array.size_modify, Array.size_modify]
    exact congrArg Handle.mk hsize
  lookup := h.lookup
  table := h.table
  structs := h.structs
  globals := h.globals
  header := h.header
  descriptors := h.descriptors

/-- The same function is added, maybe under two names. -/
theorem addFunction (h : u.Renamed N u') {f f' : Function} (hf : f.Renamed N f') :
    Renamed N { u with module := u.module.addFunction f }
      { u' with module := u'.module.addFunction f' } where
  function := fun id => by
    show Option.Rel _ ((u.module.addFunction f).function? id) ((u'.module.addFunction f').function? id)
    by_cases hid : id = u.module.nextFunction
    · subst hid
      rw [Module.function?_addFunction_next, ← h.next, Module.function?_addFunction_next]
      exact .some hf
    · rw [Module.function?_addFunction_of_ne _ hid,
        Module.function?_addFunction_of_ne _ (fun h' => hid (h'.trans h.next))]
      exact h.function id
  next := by
    have hsize := congrArg Handle.index h.next
    show (⟨(u'.module.functions.push f').size⟩ : FunctionId) = ⟨(u.module.functions.push f).size⟩
    rw [Array.size_push, Array.size_push]
    exact congrArg (fun n => Handle.mk (n + 1)) hsize
  lookup := fun {name} hn => by
    show (u'.module.symbols.insert f'.name u'.module.nextFunction).get? name =
      (u.module.symbols.insert f.name u.module.nextFunction).get? name
    rw [h.next]
    exact get?_insert (fun hn => h.lookup hn) hf.name hn _
  table := h.table
  structs := h.structs
  globals := h.globals
  header := h.header
  descriptors := h.descriptors

/-- The same definition is entered, maybe under two symbols. -/
theorem started {s s' : GenState} (h : s.unit.Renamed N s'.unit) (sp sp' : Specialization)
    {symbol symbol' : String} (hsymbol : symbol' = symbol ∨ N symbol ∧ N symbol') (params : List Ty)
    (ret : Ty) : (s.started sp symbol params ret).unit.Renamed N
      (s'.started sp' symbol' params ret).unit := by
  have hshell : Function.Renamed N ((Function.shell symbol params ret .internal).addBlock "entry")
    ((Function.shell symbol' params ret .internal).addBlock "entry") := ⟨rfl, hsymbol⟩
  refine { h.addFunction hshell with table := fun {other} hn => ?_ }
  show (s'.unit.specializations.insert symbol' s'.unit.module.nextFunction).get? other =
    (s.unit.specializations.insert symbol s.unit.module.nextFunction).get? other
  rw [h.next]
  exact get?_insert (fun hn => h.table hn) hsymbol hn _

/-- The result type of a function has nothing to do with its name. -/
theorem functionRet (h : u.Renamed N u') (id : FunctionId) :
    u'.module.functionRet id = u.module.functionRet id := by
  have hf := h.function id
  rw [Module.functionRet_eq, Module.functionRet_eq]
  generalize u.module.function? id = a, u'.module.function? id = a' at hf
  cases hf with
  | none => rfl
  | @some f f' hf =>
    show f'.ret = f.ret
    rw [hf.eq]

/-- A name that is none of the given ones is declared alike. -/
theorem declare (h : u.Renamed N u') {name : String} (hn : ¬ N name) (params : List Ty) (ret : Ty)
    (attrs : Attributes) (variadic : Bool) :
    (∃ c, u.module.declare name params ret attrs variadic = .error c ∧
      u'.module.declare name params ret attrs variadic = .error c) ∨
    ∃ id m m', u.module.declare name params ret attrs variadic = .ok (id, m) ∧
      u'.module.declare name params ret attrs variadic = .ok (id, m') ∧
      Renamed N { u with module := m } { u' with module := m' } := by
  have hlookup := h.lookup hn
  cases hid : u.module.lookup name with
  | none =>
    refine .inr ⟨_, _, _, Module.declare_of_unbound hid, ?_, h.addFunction (.refl _)⟩
    rw [Module.declare_of_unbound (hlookup.trans hid), h.next]
  | some id =>
    have hf := h.function id
    generalize ha : u.module.function? id = a, ha' : u'.module.function? id = a' at hf
    cases hf with
    | none =>
      have same {m : Module} (hl : m.lookup name = some id) (hnone : m.function? id = none) :
          m.declare name params ret attrs variadic = .ok (id, m) := by
        unfold Module.declare
        rw [hl]
        dsimp only
        rw [hnone]
      exact .inr ⟨id, _, _, same hid ha, same (hlookup.trans hid) ha', h⟩
    | @some f f' hf =>
      have hheading : f'.heading.2 = f.heading.2 := by
        rw [hf.eq]
        rfl
      rw [Module.declare_of_bound hid ha, Module.declare_of_bound (hlookup.trans hid) ha', hheading]
      split
      · exact .inr ⟨id, _, _, rfl, rfl, h⟩
      · exact .inl ⟨_, rfl, rfl⟩

end UnitState.Renamed

/-! ## Two states -/

/-- The states of two runs at the same place of a tree, where the types in the tree of the second are
those of the first under `φ`, and those that stand for type parameters in the first one have `T`. -/
structure Lockstep (N : String → Prop) (T : StaticType → Prop) (φ : StaticType → StaticType) where
  first : GenState
  second : GenState
  unit : first.unit.Renamed N second.unit
  function : second.frame.function = first.frame.function
  frame : Frame.Alike φ Eq Eq (fun _ => True) first.frame second.frame
  passed : ∀ {name t}, first.frame.subst.get? name = some t → T t

namespace Lockstep

variable {N : String → Prop} {T : StaticType → Prop} {φ : StaticType → StaticType}
  (w : Lockstep N T φ)

instance : Preorder (Lockstep N T φ) where
  le _ _ := True
  le_refl _ := trivial
  le_trans _ _ _ _ _ := trivial

def outlook (N : String → Prop) (T : StaticType → Prop) (φ : StaticType → StaticType) :
    Outlook (Lockstep N T φ) where
  value := Eq
  attributes := Eq
  storage _ := True
  block _ _ := True
  declared _ i j := i = j
  struct _ i j := i = j
  attributes_none := rfl
  storage_of := fun _ => trivial
  block_mono := fun _ => id
  declared_mono := fun _ => id
  struct_mono := fun _ => id

/-- The same places in other units. -/
def withUnits {u u' : UnitState} (h : u.Renamed N u') : Lockstep N T φ :=
  { w with first := ⟨u, w.first.frame⟩, second := ⟨u', w.second.frame⟩, unit := h }

/-- What has nothing to do with names is the same of the functions under construction. -/
theorem query_eq {α : Type} {default : α} {q : Function → α}
    (hq : ∀ (f : Function) (name : String), q { f with name } = q f) :
    w.second.query default q = w.first.query default q := by
  have hf := w.unit.function w.first.frame.function
  unfold GenState.query
  rw [w.function]
  generalize w.first.unit.module.function? w.first.frame.function = a,
    w.second.unit.module.function? w.first.frame.function = a' at hf
  cases hf with
  | none => rfl
  | @some f f' hf =>
    show q f' = q f
    rw [hf.eq, hq]

end Lockstep

namespace Gen

variable {N : String → Prop} {T : StaticType → Prop} {φ : StaticType → StaticType} {env : Env}
  {α β : Type} {w : Lockstep N T φ}

/-- Two runs that end alike: with related results and in states that are in step again, or with the
same error. -/
inductive InStep (env : Env) (α : Type) (w : Lockstep N T φ) (V : Lockstep N T φ → α → α → Prop)
    (m m' : Gen α) : Prop
  | ok (x : Lockstep N T φ) {a a' : α} (hm : m env w.first = .ok a x.first)
    (hm' : m' env w.second = .ok a' x.second) (hV : V x a a')
  | error {e : Failure} {s s' : GenState} (hm : m env w.first = .error e s)
    (hm' : m' env w.second = .error e s')

namespace InStep

variable {V : Lockstep N T φ → α → α → Prop} {U : Lockstep N T φ → β → β → Prop} {m m' : Gen α}
  {f f' : α → Gen β} {a a' : α}

/-- A step that looks something up. -/
theorem look (hm : m env w.first = .ok a w.first) (hm' : m' env w.second = .ok a' w.second)
    (hV : V w a a') : InStep env α w V m m' :=
  .ok w hm hm' hV

protected theorem bind (hm : InStep env α w V m m')
    (hf : ∀ x a a', w ≤ x → V x a a' → InStep env β x U (f a) (f' a')) :
    InStep env β w U (m >>= f) (m' >>= f') := by
  have run {m : Gen α} {f : α → Gen β} {a : α} {s t : GenState} (hm : m env s = .ok a t) :
      (m >>= f) env s = f a env t := by rw [run_bind, hm]
  cases hm with
  | ok x hm hm' hV =>
    cases hf x _ _ trivial hV with
    | ok y hy hy' hU => exact .ok y ((run hm).trans hy) ((run hm').trans hy') hU
    | error hy hy' => exact .error ((run hm).trans hy) ((run hm').trans hy')
  | error hm hm' => exact .error (by rw [run_bind, hm]) (by rw [run_bind, hm'])

/-- A step that changes the unit. -/
theorem step {u u' : UnitState} (hm : m env w.first = .ok a ⟨u, w.first.frame⟩)
    (hm' : m' env w.second = .ok a' ⟨u', w.second.frame⟩) (h : u.Renamed N u')
    (hV : ∀ x, V x a a') : InStep env α w V m m' :=
  .ok (w.withUnits h) hm hm' (hV _)

/-- The same change of the functions under construction. -/
theorem edit {g : Function → Function} (hg : Function.Nameless g)
    (hm : m env w.first = .ok a (w.first.mapFunction g))
    (hm' : m' env w.second = .ok a (w.second.mapFunction g)) (hV : ∀ x, V x a a) :
    InStep env α w V m m' := by
  refine step hm hm' ?_ hV
  rw [w.function]
  exact w.unit.modifyFunction _ hg

/-! ## Steps on the current functions -/

theorem requireOpen : InStep env Unit w (fun _ => Eq) Gen.requireOpen Gen.requireOpen := by
  have hsame : (w.second.query false fun f => f.isTerminated w.second.frame.block) =
      w.first.query false fun f => f.isTerminated w.first.frame.block := by
    rw [w.frame.block]
    exact w.query_eq fun _ _ => rfl
  have run (s : GenState) : Gen.requireOpen env s =
      if (s.query false fun f => f.isTerminated s.frame.block) = true then .error Failure.misplaced s
      else .ok () s := by
    unfold Gen.requireOpen
    rw [run_bind]
    show (if _ then (throw Failure.misplaced : Gen Unit) else pure ()) env s = _
    split <;> rfl
  by_cases hopen : (w.first.query false fun f => f.isTerminated w.first.frame.block) = true
  · exact .error ((run _).trans (if_pos hopen)) ((run _).trans (if_pos (hsame.trans hopen)))
  · exact look ((run _).trans (if_neg hopen)) ((run _).trans (if_neg (hsame ▸ hopen))) rfl

theorem emit (d : Definition) : InStep env ValueId w (fun _ => Eq) (Gen.emit d) (Gen.emit d) := by
  refine InStep.bind requireOpen fun x _ _ _ _ => ?_
  have hvalue : x.second.query .absent Function.nextValue = x.first.query .absent Function.nextValue :=
    x.query_eq fun _ _ => rfl
  refine edit (a := x.first.query .absent Function.nextValue) (Function.nameless_append _ d) rfl ?_
    fun _ => rfl
  rw [← hvalue, ← x.frame.block]
  rfl

/-- What is computed from the functions under construction, without their names. -/
theorem queried {default : α} {q : Function → α}
    (hq : ∀ (f : Function) (name : String), q { f with name } = q f)
    (hf : ∀ a, InStep env β w U (f a) (f' a)) :
    InStep env β w U ((do return (← get).query default q) >>= f)
      ((do return (← get).query default q) >>= f') := by
  refine InStep.bind (V := fun x a b => x = w ∧ a = b)
    (look (a := w.first.query default q) rfl ?_ ⟨rfl, rfl⟩) ?_
  · rw [← w.query_eq hq]
    rfl
  · rintro x a _ - ⟨rfl, rfl⟩
    exact hf a

theorem emitSlot (t : Ty) : InStep env ValueId w (fun _ => Eq) (Gen.emitSlot t) (Gen.emitSlot t) := by
  have hvalue : w.second.query .absent Function.nextValue = w.first.query .absent Function.nextValue :=
    w.query_eq fun _ _ => rfl
  refine edit (a := w.first.query .absent Function.nextValue)
    (Function.Edit.nameless (b := w.first.frame.block) (.addSlot t)) rfl ?_ fun _ => rfl
  rw [← hvalue]
  rfl

theorem terminate (t : Terminator) :
    InStep env Unit w (fun _ => Eq) (Gen.terminate t) (Gen.terminate t) := by
  refine InStep.bind requireOpen fun x _ _ _ _ => ?_
  refine edit (Function.Edit.nameless (b := x.first.frame.block) (.terminate t)) rfl ?_ fun _ => rfl
  rw [← x.frame.block]
  rfl

theorem appendBlock (word : String) : InStep env BlockId w (fun _ b b' => b = b' ∧ True)
    (Gen.appendBlock word) (Gen.appendBlock word) := by
  have hblock : w.second.query .absent Function.nextBlock = w.first.query .absent Function.nextBlock :=
    w.query_eq fun _ _ => rfl
  refine edit (a := w.first.query .absent Function.nextBlock)
    (Function.Edit.nameless (b := w.first.frame.block) (.addBlock word)) rfl ?_ fun _ => ⟨rfl, trivial⟩
  rw [← hblock]
  rfl

/-- A change of the frames. -/
theorem modifyFrame {g g' : Frame → Frame}
    (hg : Frame.Alike φ Eq Eq (fun _ => True) (g w.first.frame) (g' w.second.frame))
    (hkeep : (g w.first.frame).function = w.first.frame.function ∧
      (g w.first.frame).subst = w.first.frame.subst)
    (hkeep' : (g' w.second.frame).function = w.second.frame.function) :
    InStep env Unit w (fun _ => Eq) (Gen.modifyFrame g) (Gen.modifyFrame g') :=
  .ok { first := { w.first with frame := g w.first.frame }
        second := { w.second with frame := g' w.second.frame }
        unit := w.unit
        function := by
          show (g' w.second.frame).function = (g w.first.frame).function
          rw [hkeep', w.function, hkeep.1]
        frame := hg
        passed := fun {name t} h => by
          have h : (g w.first.frame).subst.get? name = some t := h
          rw [hkeep.2] at h
          exact w.passed h } rfl rfl rfl

/-! ## Functions of the module -/

theorem call (i : FunctionId) (args : List ValueId) (attrs : Attributes) :
    InStep env ValueId w (fun _ => Eq) (Gen.callFunction i args attrs)
      (Gen.callFunction i args attrs) := by
  have run (s : GenState) : Gen.callFunction i args attrs env s =
      Gen.emit (.call i (s.unit.module.functionRet i) args attrs) env s := rfl
  have hemit : InStep env ValueId w (fun _ => Eq)
    (Gen.emit (.call i (w.first.unit.module.functionRet i) args attrs)) _ := emit _
  cases hemit with
  | ok x hm hm' hV =>
    exact .ok x ((run _).trans hm) ((run _).trans (by rw [w.unit.functionRet, hm'])) hV
  | error hm hm' =>
    exact .error ((run _).trans hm) ((run _).trans (by rw [w.unit.functionRet, hm']))

theorem declareExternal {name : String} (hn : ¬ N name) (params : List Ty) (ret : Ty)
    (attrs : Attributes) (variadic : Bool) (span : Span) :
    InStep env FunctionId w (fun _ => Eq) (Gen.declareExternal name params ret attrs variadic span)
      (Gen.declareExternal name params ret attrs variadic span) := by
  rcases w.unit.declare hn params ret attrs variadic with
    ⟨c, hc, hc'⟩ | ⟨id, m, m', hm, hm', hunit⟩
  · exact .error (by rw [Gen.declareExternal, run_get, hc]; rfl)
      (by rw [Gen.declareExternal, run_get, hc']; rfl)
  · exact step (by rw [Gen.declareExternal, run_get, hm]; rfl)
      (by rw [Gen.declareExternal, run_get, hm']; rfl) hunit fun _ => rfl

section Reserved

variable (hN : ∀ {name}, N name → Mangling.isReserved name = true)

include hN

theorem callSupport (f : SupportFunction) (args : List ValueId) (span : Span) :
    InStep env ValueId w (fun _ => Eq) (Gen.callSupport f args span) (Gen.callSupport f args span) := by
  have hname : ¬ N f.symbol := fun h => by cases (hN h).symm.trans f.isReserved_symbol
  refine InStep.bind (declareExternal hname _ _ _ _ _) ?_
  rintro x callee _ - rfl
  cases f.allocates with
  | true =>
    refine InStep.bind (V := fun _ => Eq) (step rfl rfl ?_ fun _ => rfl) fun y _ _ _ _ => emit _
    exact { x.unit with }
  | false => exact emit _

theorem declareMath {symbol : String} (hsym : symbol ∈ MathMember.symbols) (arity : Nat)
    (attrs : Attributes) (span : Span) : InStep env FunctionId w (fun _ => Eq)
      (Gen.declareMath symbol arity attrs span) (Gen.declareMath symbol arity attrs span) :=
  declareExternal (fun h => by cases (hN h).symm.trans (MathMember.isReserved_symbols symbol hsym))
    _ _ _ _ _

end Reserved

/-! ## Layouts -/

theorem arrayHeader : InStep env StructId w (fun _ => Eq) Gen.arrayHeader Gen.arrayHeader := by
  have hheader := w.unit.header
  have hnext : w.second.unit.module.nextStruct = w.first.unit.module.nextStruct := by
    rw [Module.nextStruct, w.unit.structs, Module.nextStruct]
  cases hfirst : w.first.unit.arrayHeader with
  | some id =>
    refine look (a := id) ?_ ?_ rfl
    · rw [Gen.arrayHeader, run_get, hfirst]
      rfl
    · rw [Gen.arrayHeader, run_get, hheader, hfirst]
      rfl
  | none =>
    have hrun : Gen.arrayHeader env w.first = .ok w.first.unit.module.nextStruct w.first.withHeader := by
      rw [Gen.arrayHeader, run_get, hfirst]
      rfl
    have hrun' : Gen.arrayHeader env w.second =
        .ok w.second.unit.module.nextStruct w.second.withHeader := by
      rw [Gen.arrayHeader, run_get, hheader, hfirst]
      rfl
    refine step hrun hrun' { w.unit with structs := ?_, header := ?_ } fun _ => hnext.symm
    · show w.second.unit.module.structs.push _ = w.first.unit.module.structs.push _
      rw [w.unit.structs]
    · exact congrArg some hnext

theorem descriptor (cls : ClassId) :
    InStep env ClassDescriptor w (fun _ => ClassDescriptor.Alike Eq) (Gen.descriptor cls)
      (Gen.descriptor cls) := by
  have htable : w.second.unit.descriptors.get? cls = w.first.unit.descriptors.get? cls := by
    rw [w.unit.descriptors]
  have hnext : w.second.unit.module.nextStruct = w.first.unit.module.nextStruct := by
    rw [Module.nextStruct, w.unit.structs, Module.nextStruct]
  have hrun : Gen.descriptor cls env w.first = _ := descriptor_run w.first cls
  have hrun' : Gen.descriptor cls env w.second = _ := descriptor_run w.second cls
  rw [htable] at hrun'
  cases hd : w.first.unit.descriptors.get? cls with
  | some d =>
    rw [hd] at hrun hrun'
    exact look hrun hrun' ⟨d.layout, rfl, rfl⟩
  | none =>
    rw [hd] at hrun hrun'
    dsimp only at hrun hrun'
    rw [buildDescriptor_run] at hrun hrun'
    cases hdecl : env.program.class? cls with
    | none =>
      rw [hdecl] at hrun hrun'
      exact .error hrun hrun'
    | some decl =>
      rw [hdecl] at hrun hrun'
      dsimp only at hrun hrun'
      cases hfields : decl.fieldInfos with
      | error e =>
        rw [hfields] at hrun hrun'
        exact .error hrun hrun'
      | ok fields =>
        rw [hfields] at hrun hrun'
        dsimp only at hrun hrun'
        cases hmethods : env.program.methodNames decl with
        | error e =>
          rw [hmethods] at hrun hrun'
          exact .error hrun hrun'
        | ok methods =>
          rw [hmethods] at hrun hrun'
          dsimp only at hrun hrun'
          rw [hnext] at hrun'
          refine step hrun hrun' { w.unit with structs := ?_, descriptors := ?_ }
            fun _ => ⟨_, rfl, rfl⟩
          · show w.second.unit.module.structs.push _ = w.first.unit.module.structs.push _
            rw [w.unit.structs]
          · show w.second.unit.descriptors.insert _ _ = w.first.unit.descriptors.insert _ _
            rw [w.unit.descriptors]

theorem literalAddress (t : Ty) (data : List Constant) : InStep env ValueId w (fun _ => Eq)
    (do Gen.emit (.globalAddr (← addLiteralGlobal t data)))
    (do Gen.emit (.globalAddr (← addLiteralGlobal t data))) := by
  have hglobals := w.unit.globals
  have hnext : w.second.unit.module.nextGlobal = w.first.unit.module.nextGlobal := by
    rw [Module.nextGlobal, hglobals, Module.nextGlobal]
  let added (s : GenState) : UnitState := { s.unit with module :=
    (s.unit.module.addGlobal ("brisk.lit." ++ toString s.unit.module.globals.size) t data).2 }
  have hrun (s : GenState) : addLiteralGlobal t data env s =
    .ok s.unit.module.nextGlobal ⟨added s, s.frame⟩ := rfl
  refine InStep.bind (V := fun _ => Eq) (step (hrun w.first) (hrun w.second)
    { w.unit with globals := ?_ } fun _ => hnext.symm) ?_
  · show w.second.unit.module.globals.push _ = w.first.unit.module.globals.push _
    rw [hglobals]
  · rintro x id _ - rfl
    exact emit _

/-! ## Trees -/

/-- Steps that see nothing of the names stay in step. -/
theorem steps (hN : ∀ {name}, N name → Mangling.isReserved name = true) :
    Steps (Lockstep.outlook N T φ) env env φ fun α w => InStep env α w where
  similar := .refl env
  hints := rfl
  pure := fun hV => look rfl rfl hV
  bind := InStep.bind
  throw := fun _ _ => .error rfl rfl
  reads := look rfl rfl ⟨rfl, rfl⟩
  frame := fun {w} => look rfl rfl w.frame
  modifyFrame := fun {w _ _} hg hkeep hkeep' => modifyFrame (hg _ _ w.frame)
    ⟨(hkeep _).1, (hkeep _).2.2⟩ (hkeep' _).1
  isTerminated := fun {w} => by
    have hsame : (w.second.query false fun f => f.isTerminated w.second.frame.block) =
        w.first.query false fun f => f.isTerminated w.first.frame.block := by
      rw [w.frame.block]
      exact w.query_eq fun _ _ => rfl
    exact look rfl rfl hsame.symm
  emit := fun hd => hd.eq ▸ emit _
  emitBinary := fun op _ _ _ _ hl hr => by
    rw [show _ = _ from hl, show _ = _ from hr]
    exact queried (fun _ _ => rfl) fun _ => emit _
  emitSelect := fun hc ha hb => by
    rw [show _ = _ from hc, show _ = _ from ha, show _ = _ from hb]
    exact queried (fun _ _ => rfl) fun _ => emit _
  fieldPtr := fun index hbase hij => by
    rw [show _ = _ from hbase, show _ = _ from hij]
    exact emit _
  emitSlot := emitSlot
  terminate := fun ht => ht.eq ▸ terminate _
  appendBlock := appendBlock
  positionAt := fun {w b} _ => modifyFrame { w.frame with block := rfl } ⟨rfl, rfl⟩ rfl
  param := fun _ => rfl
  arrayHeader := arrayHeader
  descriptor := descriptor
  callSupport := fun f args args' span _ ha => by
    rw [eq_of_forall₂ ha]
    exact callSupport hN f args span
  declareMath := fun arity attrs attrs' span hsym ha => by
    rw [show _ = _ from ha]
    exact declareMath hN hsym arity attrs' span
  callFunction := fun hij ha hattrs => by
    rw [show _ = _ from hij, eq_of_forall₂ ha, show _ = _ from hattrs]
    exact call _ _ _

end InStep

end Gen

/-! ## Requests -/

/-- What runs that are blind to some names go over: functions with `Called`, whose code calls such
functions only, and whose symbols are none of the names. -/
structure Program.Blind (Called : FuncId → Prop) (T : StaticType → Prop) (N : String → Prop)
    (p : Program) : Prop where
  body : ∀ {f decl n}, Called f → p.function? f = some decl → decl.body = some n →
    n.CallsWithin Called T
  default : ∀ {f decl q n}, Called f → p.function? f = some decl → q ∈ decl.params →
    q.default = some n → n.CallsWithin Called T
  substitute : ∀ {t : StaticType} {subst : Substitution}, T t →
    (∀ {name u}, subst.get? name = some u → T u) → T (t.substitute subst)
  spares : p.SparesSymbols
  reserved : ∀ {name}, N name → Mangling.isReserved name = true
  apart : ∀ {sp : Specialization}, sp.Declared T p → Called sp.func → ¬ N (sp.symbol p)

/-- The states in which the body of a specialization is generated in two units. -/
def Lockstep.entered {N : String → Prop} {T : StaticType → Prop} {φ : StaticType → StaticType}
    {p : Program} (w : Lockstep N T φ) {sp : Specialization} (hsp : sp.Declared T p) (symbol : String)
    (params : List Ty) (ret : Ty) : Lockstep N T fun t => t where
  first := w.first.started sp symbol params ret
  second := w.second.started sp symbol params ret
  unit := w.unit.started sp sp (.inl rfl) params ret
  function := w.unit.next
  frame := ⟨rfl, .nil, rfl, rfl, fun _ => rfl, .none⟩
  passed := hsp.subst

namespace Gen

variable {N : String → Prop} {T : StaticType → Prop} {φ : StaticType → StaticType} {env : Env}
  {w : Lockstep N T φ} {Called : FuncId → Prop} {d : Nat} {sp : Specialization}

namespace InStep

/-- The body of a function that is retyped, at places that agree on the types. -/
theorem generateBody (hN : ∀ {name}, N name → Mangling.isReserved name = true)
    {s s' : Specialization} (hname : s'.name = s.name) (howner : s'.owner = s.owner)
    (hinstance : s'.isInstance = s.isInstance)
    (hparams : s'.params = s.params.map (ResolvedParam.retyped φ)) {body : Node}
    (hb : Coupling.Couples (Lockstep.outlook N T φ) φ (Gen.generate d) (Gen.generate d)
      (fun α w => InStep env α w) body)
    (hd : ∀ q ∈ s.params, ∀ n, q.default = some n → Coupling.Couples (Lockstep.outlook N T φ) φ
      (Gen.generate d) (Gen.generate d) (fun α w => InStep env α w) n) (span : Span) :
    InStep env Unit w (fun _ => Eq) (Gen.generateBody (Gen.generate d) s body span)
      (Gen.generateBody (Gen.generate d) s' (body.retyped φ) span) := by
  have hsteps : Steps (Lockstep.outlook N T φ) env env φ fun α w => InStep env α w := steps hN
  have hc : Coupling (Lockstep.outlook N T φ) env env φ (fun _ => False) (fun _ => True)
      (Gen.generate d) (Gen.generate d) fun α w => InStep env α w :=
    hsteps.coupling rfl literalAddress (fun hc => hc.elim) fun _ _ _ hc => hc.elim
  exact hc.generateBody hname howner hinstance hparams hb hd span

/-- A definition that has neither of the names is answered alike. -/
theorem requestDefinition (hsp : sp.Declared T env.program) (hN : ¬ N (sp.symbol env.program))
    {body : Node} {params : List Ty} {ret : Ty} {span : Span}
    (hbody : ∀ x : Lockstep N T fun t => t, InStep env Unit x (fun _ => Eq)
      (Gen.generateBody (Gen.generate d) sp body span)
      (Gen.generateBody (Gen.generate d) sp body span)) :
    InStep env FunctionId w (fun _ => Eq)
      (Gen.requestDefinition (Gen.generate d) sp body params ret span)
      (Gen.requestDefinition (Gen.generate d) sp body params ret span) := by
  have hrun : Gen.requestDefinition (Gen.generate d) sp body params ret span env w.first = _ :=
    requestDefinition_run w.first body params ret
  have hrun' : Gen.requestDefinition (Gen.generate d) sp body params ret span env w.second = _ :=
    requestDefinition_run w.second body params ret
  rw [w.unit.table hN] at hrun'
  cases htable : w.first.unit.specializations.get? (sp.symbol env.program) with
  | some id =>
    rw [htable] at hrun hrun'
    exact step hrun hrun' { w.unit with } fun _ => rfl
  | none =>
    rw [htable] at hrun hrun'
    dsimp only at hrun hrun'
    cases hbody (w.entered hsp (sp.symbol env.program) params ret) with
    | error hm hm' =>
      have hm : Gen.generateBody (Gen.generate d) sp body span env
        (w.first.started sp (sp.symbol env.program) params ret) = _ := hm
      have hm' : Gen.generateBody (Gen.generate d) sp body span env
        (w.second.started sp (sp.symbol env.program) params ret) = _ := hm'
      rw [hm] at hrun
      rw [hm'] at hrun'
      exact .error hrun hrun'
    | ok x hm hm' _ =>
      have hm : Gen.generateBody (Gen.generate d) sp body span env
        (w.first.started sp (sp.symbol env.program) params ret) = _ := hm
      have hm' : Gen.generateBody (Gen.generate d) sp body span env
        (w.second.started sp (sp.symbol env.program) params ret) = _ := hm'
      rw [hm] at hrun
      rw [hm'] at hrun'
      exact step hrun hrun' x.unit fun _ => w.unit.next.symm

/-- A function that may be called is answered alike. -/
theorem specialize (h : env.program.Blind Called T N)
    (hn : ∀ n : Node, n.CallsWithin Called T → Coupling.Couples (Lockstep.outlook N T fun t => t)
      (fun t => t) (Gen.generate d) (Gen.generate d) (fun α w => InStep env α w) n)
    {decl : FunctionDecl} (hdecl : env.program.function? sp.func = some decl)
    (hname : sp.name = decl.name)
    (hsp : ∀ body params ret, decl.body = some body → sp.loweredParams = .ok params →
      (∃ span, sp.ret.lowered span = .ok ret) →
      sp.Requestable Called T env.program body params ret) (span : Span) :
    InStep env FunctionId w (fun _ => Eq) (Gen.specialize (Gen.generate d) sp span)
      (Gen.specialize (Gen.generate d) sp span) := by
  have hsteps : Steps (Lockstep.outlook N T φ) env env φ fun α w => InStep env α w := steps h.reserved
  refine hsteps.bind (hsteps.ofExcept _) ?_
  rintro x params _ - ⟨rfl, hparams⟩
  refine hsteps.bind (hsteps.ofExcept _) ?_
  rintro y ret _ - ⟨rfl, hret⟩
  refine hsteps.bind (hsteps.functionDecl _) ?_
  rintro z decl' _ - ⟨rfl, hdecl'⟩
  cases hdecl.symm.trans hdecl'
  cases hbody : decl.body with
  | none =>
    have hreserved : Mangling.isReserved sp.name = false := by
      rw [hname]
      exact h.spares decl (Array.mem_of_getElem? hdecl) hbody
    exact declareExternal (fun hN => by cases (h.reserved hN).symm.trans hreserved) _ _ _ _ _
  | some body =>
    have hrequestable := hsp body params ret hbody hparams ⟨span, hret⟩
    refine requestDefinition hrequestable.declared
      (h.apart hrequestable.declared hrequestable.called) fun x => ?_
    have hgenerates := generateBody (w := x) (s := sp) h.reserved rfl rfl rfl
      (List.map_id'' ResolvedParam.retyped_self _).symm (hn body ?_) (fun q hq d hd => hn d ?_) span
    · rwa [Node.retyped_self] at hgenerates
    · exact h.body hrequestable.called hdecl hbody
    · obtain ⟨decl', _, _, hdecl', -, hres⟩ := hrequestable.declared.resolves
      cases hdecl.symm.trans hdecl'
      obtain ⟨param, hparam, hdefault⟩ := hres.exists_default hq hd
      exact h.default hrequestable.called hdecl hparam hdefault

end InStep

/-- Trees whose types agree are gone over in step. -/
theorem lockstep_nodes (h : env.program.Blind Called T N) : ∀ (d : Nat) {φ : StaticType → StaticType}
    (n : Node), n.CallsWithin Called T → Coupling.Couples (Lockstep.outlook N T φ) φ (Gen.generate d)
      (Gen.generate d) (fun α w => InStep env α w) n
  | 0, _, _, _ => fun w => .error rfl rfl
  | d + 1, φ, n, hcalls => by
    have hsteps : Steps (Lockstep.outlook N T φ) env env φ fun α w => InStep env α w :=
      InStep.steps h.reserved
    have hc : Coupling (Lockstep.outlook N T φ) env env φ (Signature.Within Called T) T
        (Gen.generate d) (Gen.generate d) fun α w => InStep env α w := by
      refine hsteps.coupling rfl InStep.literalAddress ?_ ?_
      · intro w signature t hs ht
        refine InStep.look (a := t.substitute w.first.frame.subst) rfl ?_
          ⟨rfl, h.substitute (hs.2 t ht) w.passed⟩
        rw [← w.frame.subst t]
        rfl
      · intro w signature sp decl typeArgs argCount span args args' hs htypes hdecl hres hargs
        have hresolves := Specialization.resolve_ok hres
        have hfunc : env.program.function? sp.func = some decl := by rw [hresolves.func_eq, hdecl]
        refine hsteps.bind (InStep.specialize h (lockstep_nodes h d) hfunc hresolves.name_eq
          (fun body params ret hbody hparams ⟨at', hret⟩ => .of_resolves hresolves hs.1 htypes hdecl
            hbody hparams hret) span) ?_
        exact fun x i j _ hij => hsteps.callFunction hij hargs rfl
    exact hc.generateNode hcalls.here fun c hunder => lockstep_nodes h d c (hunder.everywhere hcalls)

end Gen

end TypedLowering
