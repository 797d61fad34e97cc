import Mathlib.Data.List.Forall2
import TypedLowering.Proofs.Ssa.Body
import TypedLowering.Ssa.Module

/-!
Types of instructions. A function is well typed in a module if each of its instructions gets operands
of the types that it takes and has the type that it computes, and if its blocks end with values of
the right type. What a module knows of its functions is their signatures, and of its structs their
fields; neither changes while code is generated, so instructions stay well typed.
-/
namespace TypedLowering.Ssa
set_option autoImplicit false

/-! ## Addresses -/

/-- Whether an instruction computes the address of a slot, a field or an element. -/
def Op.isAddress : Op → Bool
  | .alloca _ | .fieldPtr _ _ _ | .elementPtr _ _ _ => true
  | _ => false

/-- The type of what is stored at the address that an instruction computes. -/
def Module.pointee? (m : Module) : Op → Option Ty
  | .alloca t | .elementPtr _ t _ => some t
  | .fieldPtr _ s i => (m.struct? s).bind fun d => d.fields[i]?
  | _ => none

/-! ## Operators -/

/-- Operators on doubles. -/
def BinOp.isFloat : BinOp → Bool
  | .fadd | .fsub | .fmul | .fdiv | .frem => true
  | _ => false

/-- Operators that also take truth values. -/
def BinOp.isLogical : BinOp → Bool
  | .and | .or | .xor => true
  | _ => false

/-- The types of operands on which an operator works. -/
def BinOp.takes (op : BinOp) : Ty → Bool
  | .i32 => !op.isFloat
  | .f64 => op.isFloat
  | .i1 => op.isLogical
  | _ => false

/-- The types that are compared as words. -/
def Ty.isWord : Ty → Bool
  | .i1 | .i32 | .ptr => true
  | _ => false

def CastOp.source : CastOp → Ty
  | .sitofp => .i32
  | .fptosi => .f64
  | .zext => .i1

def CastOp.target : CastOp → Ty
  | .sitofp => .f64
  | .fptosi | .zext => .i32

/-! ## Values -/

namespace Function

variable {f g : Function} {v : ValueId} {t : Ty}

/-- A value with a type. -/
def HasType (f : Function) (v : ValueId) (t : Ty) : Prop :=
  ∃ d, f.definition? v = some d ∧ d.type = t

/-- A value with a type that is no address of a slot, a field or an element. -/
def IsOperand (f : Function) (v : ValueId) (t : Ty) : Prop :=
  ∃ d, f.definition? v = some d ∧ d.type = t ∧ d.op.isAddress = false

theorem IsOperand.hasType (h : f.IsOperand v t) : f.HasType v t := by
  obtain ⟨d, hd, ht, -⟩ := h
  exact ⟨d, hd, ht⟩

theorem HasType.valueType_eq (h : f.HasType v t) : f.valueType v = t := by
  obtain ⟨d, hd, rfl⟩ := h
  unfold valueType
  rw [show f.values[v.index]? = some d from hd]

/-- A pointer through which values of a type are read and written: what it points to, if it is an
address, has that type. -/
def PointsTo (m : Module) (f : Function) (ptr : ValueId) (t : Ty) : Prop :=
  ∃ d, f.definition? ptr = some d ∧ d.type = .ptr ∧
    (d.op.isAddress = true → m.pointee? d.op = some t)

theorem IsOperand.pointsTo {m : Module} (h : f.IsOperand v .ptr) (t : Ty) : f.PointsTo m v t := by
  obtain ⟨d, hd, ht, hn⟩ := h
  refine ⟨d, hd, ht, fun ha => ?_⟩
  rw [hn] at ha
  cases ha

end Function

/-! ## Instructions -/

/-- An instruction of a type gets operands of the types that it takes. -/
def Op.WellTyped (m : Module) (f : Function) (t : Ty) : Op → Prop
  | .const c => t = c.type
  | .param i => f.params[i]? = some t
  | .binary op l r => op.takes t = true ∧ f.HasType l t ∧ f.HasType r t
  | .fneg v => t = .f64 ∧ f.HasType v .f64
  | .icmp _ l r => t = .i1 ∧ ∃ u : Ty, u.isWord = true ∧ f.HasType l u ∧ f.HasType r u
  | .fcmp _ l r => t = .i1 ∧ f.HasType l .f64 ∧ f.HasType r .f64
  | .cast op v => t = op.target ∧ f.HasType v op.source
  | .alloca _ => t = .ptr
  | .load ptr => f.PointsTo m ptr t
  | .store v ptr => t = .void ∧ ∃ u, f.HasType v u ∧ f.PointsTo m ptr u
  | .fieldPtr base s i =>
    t = .ptr ∧ f.HasType base .ptr ∧ ∃ d, m.struct? s = some d ∧ i < d.fields.length
  | .elementPtr base _ i => t = .ptr ∧ f.HasType base .ptr ∧ f.HasType i .i32
  | .globalAddr _ => t = .ptr
  | .call callee args _ => ∃ g, m.function? callee = some g ∧ t = g.ret ∧
    (g.variadic = false → args.length = g.params.length) ∧
    List.Forall₂ f.HasType (args.take g.params.length) g.params
  | .phi incoming => ∀ arm ∈ incoming, f.HasType arm.1 t
  | .select c a b => f.HasType c .i1 ∧ f.HasType a t ∧ f.HasType b t

/-- A block ends with a truth value to decide on, or with a result of the right type. -/
def Terminator.WellTyped (f : Function) : Terminator → Prop
  | .ret none => f.ret = .void
  | .ret (some v) => f.HasType v f.ret
  | .condBr c _ _ => f.HasType c .i1
  | .br _ | .unreachable => True

/-- A function all of whose instructions and ends of blocks are well typed. -/
structure Function.WellTyped (m : Module) (f : Function) : Prop where
  values : ∀ {v d}, f.definition? v = some d → d.op.WellTyped m f d.type
  ends : ∀ {b t}, f.exit b = some t → t.WellTyped f

/-- A module all of whose functions are well typed. -/
def Module.WellTyped (m : Module) : Prop := ∀ id f, m.function? id = some f → f.WellTyped m

/-! ## Growth -/

/-- Parameters and return type of a function, and whether calls may pass more arguments. -/
def Function.signature (f : Function) : List Ty × Ty × Bool := (f.params, f.ret, f.variadic)

theorem Function.params_of_signature {f g : Function} (h : g.signature = f.signature) :
    g.params = f.params := congrArg Prod.fst h

theorem Function.ret_of_signature {f g : Function} (h : g.signature = f.signature) :
    g.ret = f.ret := congrArg (·.2.1) h

/-- A function of the same signature has all values of another. -/
structure Function.Prolongs (f g : Function) : Prop where
  signature : g.signature = f.signature
  values : ∀ {v d}, f.definition? v = some d → g.definition? v = some d

/-- Functions keep their signatures and values, structs their fields. -/
structure Module.Prolongs (m m' : Module) : Prop where
  function : ∀ {id f}, m.function? id = some f → ∃ f', m'.function? id = some f' ∧ f.Prolongs f'
  struct : ∀ {s d}, m.struct? s = some d → m'.struct? s = some d

theorem Function.Prolongs.refl (f : Function) : f.Prolongs f := ⟨rfl, id⟩

theorem Function.Prolongs.trans {f g k : Function} (h : f.Prolongs g) (h' : g.Prolongs k) :
    f.Prolongs k :=
  ⟨h'.signature.trans h.signature, fun hd => h'.values (h.values hd)⟩

namespace Module.Prolongs

variable {m m' m'' : Module}

theorem refl (m : Module) : m.Prolongs m := ⟨fun h => ⟨_, h, .refl _⟩, id⟩

theorem trans (h : m.Prolongs m') (h' : m'.Prolongs m'') : m.Prolongs m'' := by
  refine ⟨fun hf => ?_, fun hd => h'.struct (h.struct hd)⟩
  obtain ⟨f', hf', hp⟩ := h.function hf
  obtain ⟨f'', hf'', hp'⟩ := h'.function hf'
  exact ⟨f'', hf'', hp.trans hp'⟩

/-- Functions and structs are only added. -/
theorem of_kept (hf : ∀ {id f}, m.function? id = some f → m'.function? id = some f)
    (hs : ∀ {s d}, m.struct? s = some d → m'.struct? s = some d) : m.Prolongs m' :=
  ⟨fun h => ⟨_, hf h, .refl _⟩, hs⟩

theorem pointee? (h : m.Prolongs m') {op : Op} {t : Ty} (hp : m.pointee? op = some t) :
    m'.pointee? op = some t := by
  cases op with
  | fieldPtr base s i =>
    obtain ⟨d, hd, ht⟩ := Option.bind_eq_some_iff.mp hp
    exact Option.bind_eq_some_iff.mpr ⟨d, h.struct hd, ht⟩
  | _ => exact hp

end Module.Prolongs

namespace Function.Prolongs

variable {f g : Function} {m m' : Module} {v : ValueId} {t : Ty}

theorem hasType (h : f.Prolongs g) (hv : f.HasType v t) : g.HasType v t := by
  obtain ⟨d, hd, ht⟩ := hv
  exact ⟨d, h.values hd, ht⟩

theorem isOperand (h : f.Prolongs g) (hv : f.IsOperand v t) : g.IsOperand v t := by
  obtain ⟨d, hd, hrest⟩ := hv
  exact ⟨d, h.values hd, hrest⟩

theorem pointsTo (h : f.Prolongs g) (hm : m.Prolongs m') (hv : f.PointsTo m v t) :
    g.PointsTo m' v t := by
  obtain ⟨d, hd, ht, hp⟩ := hv
  exact ⟨d, h.values hd, ht, fun ha => hm.pointee? (hp ha)⟩

theorem op_wellTyped (h : f.Prolongs g) (hm : m.Prolongs m') {op : Op} (hop : op.WellTyped m f t) :
    op.WellTyped m' g t := by
  cases op with
  | param i =>
    show g.params[i]? = some t
    rw [params_of_signature h.signature]
    exact hop
  | binary op l r => exact ⟨hop.1, h.hasType hop.2.1, h.hasType hop.2.2⟩
  | fneg v => exact ⟨hop.1, h.hasType hop.2⟩
  | icmp p l r =>
    obtain ⟨ht, u, hu, hl, hr⟩ := hop
    exact ⟨ht, u, hu, h.hasType hl, h.hasType hr⟩
  | fcmp p l r => exact ⟨hop.1, h.hasType hop.2.1, h.hasType hop.2.2⟩
  | cast op v => exact ⟨hop.1, h.hasType hop.2⟩
  | load ptr => exact h.pointsTo hm hop
  | store v ptr =>
    obtain ⟨ht, u, hv, hptr⟩ := hop
    exact ⟨ht, u, h.hasType hv, h.pointsTo hm hptr⟩
  | fieldPtr base s i =>
    obtain ⟨ht, hb, d, hd, hi⟩ := hop
    exact ⟨ht, h.hasType hb, d, hm.struct hd, hi⟩
  | elementPtr base et i => exact ⟨hop.1, h.hasType hop.2.1, h.hasType hop.2.2⟩
  | call callee args attrs =>
    obtain ⟨k, hk, ht, hlen, hargs⟩ := hop
    obtain ⟨k', hk', hs⟩ := hm.function hk
    have hparams : k'.params = k.params := params_of_signature hs.signature
    have hvariadic : k'.variadic = k.variadic := congrArg (·.2.2) hs.signature
    refine ⟨k', hk', ht.trans (ret_of_signature hs.signature).symm, ?_, ?_⟩
    · rw [hvariadic, hparams]
      exact hlen
    · rw [hparams]
      exact hargs.imp fun _ _ => h.hasType
  | phi incoming => exact fun arm harm => h.hasType (hop arm harm)
  | select c a b => exact ⟨h.hasType hop.1, h.hasType hop.2.1, h.hasType hop.2.2⟩
  | const | alloca | globalAddr => exact hop

theorem terminator_wellTyped (h : f.Prolongs g) {t : Terminator} (ht : t.WellTyped f) :
    t.WellTyped g := by
  cases t with
  | ret v =>
    cases v with
    | none => exact (ret_of_signature h.signature).trans ht
    | some v =>
      show g.HasType v g.ret
      rw [ret_of_signature h.signature]
      exact h.hasType ht
  | condBr c a b => exact h.hasType ht
  | br | unreachable => trivial

end Function.Prolongs

/-! ## Construction -/

namespace Function

variable {m m' : Module} {f : Function} {b : BlockId} {d : Definition}

/-- Values of a function to which a definition is added. -/
theorem definition?_define {g : Function} (hg : g.values = f.values.push d) (v : ValueId) :
    g.definition? v = if v = f.nextValue then some d else f.definition? v := by
  obtain ⟨i⟩ := v
  simp only [definition?, hg, nextValue, Array.getElem?_push, Handle.mk.injEq]

theorem prolongs_define {g : Function} (hs : g.signature = f.signature)
    (hg : g.values = f.values.push d) : f.Prolongs g := by
  refine ⟨hs, fun {v d'} hd => ?_⟩
  rw [definition?_define hg, if_neg]
  · exact hd
  · rintro rfl
    simp [definition?, nextValue] at hd

theorem prolongs_append (f : Function) (b : BlockId) (d : Definition) : f.Prolongs (f.append b d) :=
  prolongs_define rfl rfl

theorem prolongs_addSlot (f : Function) (t : Ty) : f.Prolongs (f.addSlot t) := prolongs_define rfl rfl

namespace WellTyped

theorem prolong (h : f.WellTyped m) (hm : m.Prolongs m') : f.WellTyped m' :=
  ⟨fun hd => (Prolongs.refl f).op_wellTyped hm (h.values hd), h.ends⟩

/-- A function with the values of a well-typed one. -/
theorem of_values_eq (h : f.WellTyped m) {g : Function} (hs : g.signature = f.signature)
    (hg : g.values = f.values)
    (he : ∀ {b t}, g.exit b = some t → f.exit b = some t ∨ t.WellTyped f) : g.WellTyped m := by
  have hv (v : ValueId) : g.definition? v = f.definition? v := by
    unfold definition?
    rw [hg]
  have hp : f.Prolongs g := ⟨hs, fun hd => (hv _).trans hd⟩
  refine ⟨fun hd => hp.op_wellTyped (.refl m) (h.values ((hv _).symm.trans hd)), fun ht => ?_⟩
  rcases he ht with hf | hf
  · exact hp.terminator_wellTyped (h.ends hf)
  · exact hp.terminator_wellTyped hf

/-- A well-typed definition is added to a well-typed function. -/
theorem define (h : f.WellTyped m) (hd : d.op.WellTyped m f d.type) {g : Function}
    (hs : g.signature = f.signature) (hg : g.values = f.values.push d)
    (he : ∀ b, g.exit b = f.exit b) : g.WellTyped m := by
  have hp := prolongs_define hs hg
  constructor
  · intro v d' hd'
    rw [definition?_define hg] at hd'
    split at hd'
    · cases hd'
      exact hp.op_wellTyped (.refl m) hd
    · exact hp.op_wellTyped (.refl m) (h.values hd')
  · intro b t ht
    exact hp.terminator_wellTyped (h.ends ((he b).symm.trans ht))

theorem append (h : f.WellTyped m) (hd : d.op.WellTyped m f d.type) : (f.append b d).WellTyped m :=
  h.define hd rfl rfl (exit_append d)

theorem addSlot (h : f.WellTyped m) (t : Ty) : (f.addSlot t).WellTyped m :=
  h.define (d := ⟨.alloca t, .ptr⟩) rfl rfl rfl (exit_addSlot t)

theorem addBlock (h : f.WellTyped m) (word : String) : (f.addBlock word).WellTyped m :=
  h.of_values_eq rfl rfl fun {b t} ht => .inl (by rwa [exit_addBlock] at ht)

theorem terminate (h : f.WellTyped m) {t : Terminator} (ht : t.WellTyped f) :
    (f.terminate b t).WellTyped m := by
  refine h.of_values_eq rfl rfl fun {c t'} hc => ?_
  by_cases hb : f.HasBlock b
  · rw [exit_terminate _ hb] at hc
    split at hc
    · cases hc
      exact .inr ht
    · exact .inl hc
  · unfold exit at hc ⊢
    rw [getElem?_blocks_terminate] at hc
    split at hc
    · next hbc =>
      rw [← hbc, Array.getElem?_eq_none (Nat.le_of_not_lt hb)] at hc
      cases hc
    · exact .inl hc

end WellTyped

/-! ## Shells -/

/-- The values of a function that has only got its parameters. -/
theorem definition?_of_params {params : List Ty}
    (hv : f.values = (paramDefinitions params).toArray) (v : ValueId) :
    f.definition? v = params[v.index]?.map fun t => ⟨.param v.index, t⟩ := by
  simp [definition?, hv, paramDefinitions, Function.comp_def]

theorem wellTyped_of_params (hv : f.values = (paramDefinitions f.params).toArray)
    (he : ∀ b, f.exit b = none) : f.WellTyped m := by
  constructor
  · intro v d hd
    rw [definition?_of_params hv, Option.map_eq_some_iff] at hd
    obtain ⟨t, ht, rfl⟩ := hd
    exact ht
  · intro b t ht
    cases (he b).symm.trans ht

end Function

end TypedLowering.Ssa
