import TypedLowering.Proofs.Decimal.Integer
import TypedLowering.Proofs.Flow.Completion
import TypedLowering.Proofs.Lowering.Steadiness
import TypedLowering.Proofs.Options.Access

/-!
Array literals of constants. The constants that are read off the elements are those that the code of
the elements computes, and where an element has no constant for want of a value its code is refused
with the same error. So the options decide how an array literal is built, but not what is in it.

Main definitions:

- `GenState.Computes`: operands whose value is known from the code, and what it is;
- `GenState.Lists`: arrays whose elements are known, and what they are.

Main result: `Gen.arrayLiteral_denotes`.
-/
namespace TypedLowering
set_option autoImplicit false
open Ssa

/-! ## What operands are -/

namespace GenState

variable {s t u : GenState}

/-- The instruction of a value of the current function. -/
def definition? (s : GenState) (x : ValueId) : Option Definition :=
  s.query none fun f => f.definition? x

/-- Operands that are constants: a constant instruction, or the double that an integer constant is
equal to. -/
inductive Computes (s : GenState) : ValueId → Constant → Prop
  | const {x : ValueId} {c : Constant} (h : s.definition? x = some (.const c)) : s.Computes x c
  | widened {x y : ValueId} {i : Int} (hx : s.definition? x = some (.cast .sitofp y .f64))
    (hy : s.definition? y = some (.const (.i32 i))) (hexact : (Binary64.ofInt i).toInt? = some i) :
    s.Computes x (.float (.ofInt i))

/-- The function under construction is one of the module. -/
def Inside (s : GenState) : Prop := ∃ f, s.unit.module.function? s.frame.function = some f

theorem Open.inside (h : s.Open) : s.Inside := h.imp fun _ => And.left

/-- Generation goes on in the same place, and the values and the data that are there stay. -/
structure Continues (s t : GenState) : Prop where
  frame : t.frame = s.frame
  inside : t.Inside
  kept : ∀ {x d}, s.definition? x = some d → t.definition? x = some d
  global : ∀ {g d}, s.unit.module.global? g = some d → t.unit.module.global? g = some d

namespace Continues

theorem refl (h : s.Inside) : s.Continues s := ⟨rfl, h, id, id⟩

theorem trans (h : s.Continues t) (h' : t.Continues u) : s.Continues u :=
  ⟨h'.frame.trans h.frame, h'.inside, fun hd => h'.kept (h.kept hd), fun hg => h'.global (h.global hg)⟩

/-- A step on the unit that leaves functions and data as they are. -/
theorem of_unit (h : s.Inside) {u : UnitState}
    (hf : ∀ {id f}, s.unit.module.function? id = some f → u.module.function? id = some f)
    (hg : ∀ {g d}, s.unit.module.global? g = some d → u.module.global? g = some d) :
    s.Continues ⟨u, s.frame⟩ := by
  obtain ⟨f, hcur⟩ := h
  refine ⟨rfl, ⟨f, hf hcur⟩, fun hx => ?_, hg⟩
  rw [definition?, GenState.query_eq _ hcur] at hx
  rw [definition?, GenState.query_eq _ (hf hcur)]
  exact hx

theorem computes (h : s.Continues t) {x : ValueId} {c : Constant} (hc : s.Computes x c) :
    t.Computes x c := by
  cases hc with
  | const hx => exact .const (h.kept hx)
  | widened hx hy hexact => exact .widened (h.kept hx) (h.kept hy) hexact

end Continues

/-- An array that is made of operands: the entry point is handed their number and the operands. -/
def Builds (s : GenState) (l : ArrayLayout) (address : ValueId) (operands : List ValueId) : Prop :=
  ∃ callee length, s.unit.module.lookup (SupportFunction.arrayNew l.storage).symbol = some callee ∧
    s.definition? address = some (.call callee .ptr (length :: operands) .none) ∧
    s.definition? length = some (.const (.i32 operands.length))

/-- An array that is copied from constant data: the entry point is handed a buffer and its length. -/
def Copies (s : GenState) (l : ArrayLayout) (address : ValueId) (data : List Constant) : Prop :=
  ∃ callee buffer length global name,
    s.unit.module.lookup (SupportFunction.arrayFromBuffer l.storage).symbol = some callee ∧
    s.definition? address = some (.call callee .ptr [buffer, length] .none) ∧
    s.definition? buffer = some (.globalAddr global) ∧
    s.unit.module.global? global = some ⟨name, l.storage.type, data⟩ ∧
    s.definition? length = some (.const (.i32 data.length))

/-- An array whose elements are constants: it is made of operands that are these, or copied from them. -/
def Lists (s : GenState) (l : ArrayLayout) (address : ValueId) (data : List Constant) : Prop :=
  (∃ operands, s.Builds l address operands ∧ List.Forall₂ s.Computes operands data) ∨
    s.Copies l address data

end GenState

/-- An integer literal is an integer of 32 bits. -/
theorem NumericText.natAbs_of_int? {text : String} {i : Int} (h : int? text = some i) :
    i.natAbs < 2 ^ 53 := by
  have hrange : ∃ j, int32? j = some i := by
    unfold int? at h
    dsimp only at h
    split at h
    · obtain ⟨j, -, hj⟩ := Option.bind_eq_some_iff.mp h
      exact ⟨j, hj⟩
    · split at h
      · exact ⟨_, h⟩
      · obtain ⟨j, -, hj⟩ := Option.bind_eq_some_iff.mp h
        exact ⟨j, hj⟩
  obtain ⟨j, hj⟩ := hrange
  unfold int32? at hj
  split at hj
  · cases hj
    omega
  · cases hj

namespace Gen

variable {α : Type} {env : Env} {s t : GenState} {span : Span} {l : ArrayLayout} {n : Node}

/-! ## Steps -/

theorem emit_ok (hs : s.Inside) {d : Definition} {x : ValueId} (h : emit d env s = .ok x t) :
    s.Continues t ∧ t.definition? x = some d ∧ t.unit.module.symbols = s.unit.module.symbols := by
  obtain ⟨f, hf⟩ := hs
  have hf' := s.function?_mapFunction hf fun f => f.append s.frame.block d
  refine Leads.ok (Q := fun x t => s.Continues t ∧ t.definition? x = some d ∧
    t.unit.module.symbols = s.unit.module.symbols) (.emit ⟨⟨rfl, ⟨_, hf'⟩, fun {x e} hx => ?_, id⟩, ?_, rfl⟩
      (E := fun _ _ => True) trivial) h
  · rw [GenState.definition?, GenState.query_eq _ hf] at hx
    rw [GenState.definition?, GenState.query_eq _ hf']
    exact getElem?_push_of_some hx
  · rw [GenState.definition?, GenState.query_eq _ hf', GenState.query_eq _ hf,
      Function.definition?_append_next]

/-- An instruction is what its value is defined by. -/
theorem emit_continues (env : Env) (hs : s.Open) (d : Definition) :
    ∃ x t, emit d env s = .ok x t ∧ s.Continues t ∧ t.Open ∧ t.definition? x = some d := by
  have hrun := emit_run env hs d
  obtain ⟨hcont, hdef, -⟩ := emit_ok hs.inside hrun
  exact ⟨_, _, hrun, hcont, (((linear_flows env).emit d s hs).ok hrun).2, hdef⟩

theorem declareExternal_continues (hs : s.Inside) {name : String} {params : List Ty} {ret : Ty}
    {attrs : Attributes} {variadic : Bool} {callee : FunctionId}
    (h : declareExternal name params ret attrs variadic span env s = .ok callee t) :
    s.Continues t ∧ t.unit.module.lookup name = some callee := by
  rw [declareExternal, run_get] at h
  cases hd : s.unit.module.declare name params ret attrs variadic with
  | error c =>
    rw [hd] at h
    cases h
  | ok r =>
    obtain ⟨id, m⟩ := r
    rw [hd] at h
    cases h
    rcases Module.declare_cases hd with ⟨-, rfl, rfl⟩ | ⟨hl, rfl, -⟩
    · refine ⟨.of_unit hs (fun hf => ?_) id, Module.lookup_addFunction_self _ _⟩
      rw [Module.function?_addFunction_of_ne _ (Module.ne_nextFunction hf)]
      exact hf
    · exact ⟨.refl hs, hl⟩

/-- A call of the support library is a call of the function that the symbol is bound to. -/
theorem callSupport_continues (hs : s.Inside) {f : SupportFunction} {args : List ValueId} {x : ValueId}
    (h : callSupport f args span env s = .ok x t) : s.Continues t ∧
      ∃ callee, t.unit.module.lookup f.symbol = some callee ∧
        t.definition? x = some (.call callee f.ret args .none) := by
  obtain ⟨callee, s₁, hd, h⟩ := bind_ok h
  obtain ⟨hcont, hl⟩ := declareExternal_continues hs hd
  -- the collector flag changes nothing that is looked at here
  have raised : ∃ s₂, s₁.Continues s₂ ∧ s₂.unit.module = s₁.unit.module ∧
      emit (.call callee f.ret args .none) env s₂ = .ok x t := by
    by_cases hall : f.allocates = true
    · rw [if_pos hall] at h
      exact ⟨⟨{ s₁.unit with gcRequired := true }, s₁.frame⟩, .of_unit hcont.inside id id, rfl, h⟩
    · rw [if_neg hall] at h
      exact ⟨s₁, .refl hcont.inside, rfl, h⟩
  obtain ⟨s₂, hcont', hm, hcall⟩ := raised
  obtain ⟨hcont'', hdef, hsymbols⟩ := emit_ok hcont'.inside hcall
  refine ⟨hcont.trans (hcont'.trans hcont''), callee, ?_, hdef⟩
  rw [Module.lookup, hsymbols, hm]
  exact hl

/-! ## Elements -/

/-- The code of an element that is read off as a constant computes this constant. -/
theorem constantElement_computes (hr : env.registry = .standard) {type : StaticType} {at' : Span}
    (hl : ArrayLayout.of type at' = .ok l) (hs : s.Open) {c : Constant}
    (h : constantElement s.frame.subst l n = .ok (some c)) (depth : Nat) :
    ∃ x t, generateOperand (Gen.generate (depth + 1)) n l.element env s = .ok x t ∧
      s.Continues t ∧ t.Open ∧ t.Computes x c := by
  -- the code of a literal with a constant
  have literal {c' : Constant} {u : StaticType} (hrun : Gen.generate (depth + 1) n env s =
      (do return Value.rvalue (← emitConst c') u) env s) :
      ∃ y s₁, s.Continues s₁ ∧ s₁.Open ∧ s₁.definition? y = some (.const c') ∧
        generateOperand (Gen.generate (depth + 1)) n l.element env s =
          castOperand (.rvalue y u) l.element n.span env s₁ := by
    obtain ⟨y, s₁, hy, hcont, hopen, hdef⟩ := emit_continues env hs (.const c')
    refine ⟨y, s₁, hcont, hopen, hdef, run_bind_of_ok (hrun.trans ?_)⟩
    exact run_bind_of_ok hy
  rcases constantElement_cases hl h with
    ⟨text, c', hform, hc', ⟨htype, rfl⟩ | ⟨htype, he, i, rfl, hi, rfl⟩⟩ | ⟨b, hform, he, rfl⟩
  · have hrun := generate_numeric hr hform depth s
    rw [hc', htype] at hrun
    obtain ⟨y, s₁, hcont, hopen, hdef, hgen⟩ := literal hrun
    exact ⟨y, s₁, hgen.trans (by rw [castOperand_self]; rfl), hcont, hopen, .const hdef⟩
  · have hrun := generate_numeric hr hform depth s
    rw [hc', htype] at hrun
    obtain ⟨y, s₁, hcont, hopen, hdef, hgen⟩ := literal hrun
    obtain ⟨x, s₂, hx, hcont', hopen', hdef'⟩ :=
      emit_continues env hopen (.cast .sitofp y .f64)
    refine ⟨x, s₂, ?_, hcont.trans hcont', hopen',
      .widened hdef' (hcont'.kept hdef) (Binary64.toInt?_ofInt (NumericText.natAbs_of_int? hi))⟩
    rw [hgen, he, castOperand_widen]
    exact hx
  · obtain ⟨y, s₁, hcont, hopen, hdef, hgen⟩ := literal (generate_boolean hr hform depth s)
    exact ⟨y, s₁, hgen.trans (by rw [he, castOperand_self]; rfl), hcont, hopen, .const hdef⟩

/-- An element that is refused when its constant is read off is refused when its code is generated. -/
theorem constantElement_refused (hr : env.registry = .standard) {e : LoweringError}
    (h : constantElement s.frame.subst l n = .error e) (depth : Nat) :
    generateOperand (Gen.generate (depth + 1)) n l.element env s = .error (.reported e) s := by
  unfold constantElement at h
  cases hform : n.form with
  | numericLiteral text =>
    rw [hform] at h
    dsimp only at h
    cases hc : numericConstant text (n.type.substitute s.frame.subst) n.span with
    | error e' =>
      rw [hc] at h
      cases h
      have hrun := generate_numeric hr hform depth s
      rw [hc] at hrun
      rw [generateOperand, run_bind, hrun]
      rfl
    | ok c =>
      rw [hc] at h
      simp only [bind, Except.bind] at h
      split at h <;> split at h <;> cases h
  | booleanLiteral b =>
    rw [hform] at h
    cases h
  | _ =>
    rw [hform] at h
    cases h

/-- The code of elements that are read off as constants computes these constants. -/
theorem constantElements_compute (hr : env.registry = .standard) {type : StaticType} {at' : Span}
    (hl : ArrayLayout.of type at' = .ok l) (depth : Nat) :
    ∀ {elements : List Node} {data : List Constant} {s : GenState}, s.Open →
      constantElements s.frame.subst l elements = .ok (some data) →
      ∃ xs t, elements.mapM (generateOperand (Gen.generate (depth + 1)) · l.element) env s =
          .ok xs t ∧ s.Continues t ∧ t.Open ∧ List.Forall₂ t.Computes xs data
  | [], _, s, hs, h => by
    cases h
    exact ⟨[], s, rfl, .refl hs.inside, hs, .nil⟩
  | n :: rest, _, s, hs, h => by
    obtain ⟨c, hc, h⟩ := except_bind_ok h
    cases c with
    | none => cases h
    | some c =>
      obtain ⟨data, hdata, h⟩ := except_bind_ok h
      cases data with
      | none => cases h
      | some data =>
        cases h
        obtain ⟨x, s₁, hx, hcont, hopen, hcomputes⟩ := constantElement_computes hr hl hs hc depth
        rw [← hcont.frame] at hdata
        obtain ⟨xs, t, hxs, hcont', hopen', hall⟩ := constantElements_compute hr hl depth hopen hdata
        refine ⟨x :: xs, t, ?_, hcont.trans hcont', hopen', .cons (hcont'.computes hcomputes) hall⟩
        rw [List.mapM_cons, run_bind, hx]
        dsimp only
        rw [run_bind, hxs]
        rfl

/-- Elements that are refused when their constants are read off are refused when their code is
generated, for the same reason: only constants stand before the one that is at fault. -/
theorem constantElements_refused (hr : env.registry = .standard) {type : StaticType} {at' : Span}
    (hl : ArrayLayout.of type at' = .ok l) (depth : Nat) {e : LoweringError} :
    ∀ {elements : List Node} {s : GenState}, s.Open →
      constantElements s.frame.subst l elements = .error e →
      ∃ t, elements.mapM (generateOperand (Gen.generate (depth + 1)) · l.element) env s =
        .error (.reported e) t
  | [], s, hs, h => by cases h
  | n :: rest, s, hs, h => by
    rw [constantElements] at h
    cases hc : constantElement s.frame.subst l n with
    | error e' =>
      rw [hc] at h
      cases h
      refine ⟨s, ?_⟩
      rw [List.mapM_cons, run_bind, constantElement_refused hr hc depth]
    | ok c =>
      rw [hc] at h
      cases c with
      | none => cases h
      | some c =>
        obtain ⟨x, s₁, hx, hcont, hopen, -⟩ := constantElement_computes hr hl hs hc depth
        have hrest : constantElements s₁.frame.subst l rest = .error e := by
          rw [hcont.frame]
          cases hdata : constantElements s.frame.subst l rest with
          | error e' =>
            simp only [bind, Except.bind, hdata] at h
            cases h
            rfl
          | ok data =>
            simp only [bind, Except.bind, hdata] at h
            cases h
        obtain ⟨t, ht⟩ := constantElements_refused hr hl depth hopen hrest
        refine ⟨t, ?_⟩
        rw [List.mapM_cons, run_bind, hx]
        dsimp only
        rw [run_bind, ht]

/-! ## Arrays -/

theorem arrayOfOperands_builds (hs : s.Inside) {operands : List ValueId} {address : ValueId}
    (h : arrayOfOperands l operands span env s = .ok address t) :
    s.Continues t ∧ t.Builds l address operands := by
  obtain ⟨length, s₁, hlength, h⟩ := bind_ok h
  obtain ⟨hcont, hdef, -⟩ := emit_ok hs hlength
  obtain ⟨hcont', callee, hl, hcall⟩ := callSupport_continues hcont.inside h
  exact ⟨hcont.trans hcont', callee, length, hl, hcall, hcont'.kept hdef⟩

theorem arrayOfConstants_copies (hs : s.Inside) {data : List Constant} {address : ValueId}
    (h : arrayOfConstants l data span env s = .ok address t) : t.Copies l address data := by
  obtain ⟨global, s₁, hadd, h⟩ := bind_ok h
  obtain ⟨buffer, s₂, hbuffer, h⟩ := bind_ok h
  obtain ⟨length, s₃, hlength, h⟩ := bind_ok h
  have hglobal : s₁.Inside ∧ s₁.unit.module.global? global =
      some ⟨"brisk.lit." ++ toString s.unit.module.globals.size, l.storage.type, data⟩ := by
    cases hadd
    refine ⟨hs, ?_⟩
    show (s.unit.module.globals.push _)[s.unit.module.globals.size]? = _
    rw [Array.getElem?_push_size]
  obtain ⟨hcont, hbufferDef, -⟩ := emit_ok hglobal.1 hbuffer
  obtain ⟨hcont', hlengthDef, -⟩ := emit_ok hcont.inside hlength
  obtain ⟨hcont'', callee, hl, hcall⟩ := callSupport_continues hcont'.inside h
  have hall := hcont'.trans hcont''
  exact ⟨callee, buffer, length, global, _, hl, hcall, hall.kept hbufferDef,
    (hcont.trans hall).global hglobal.2, hcont''.kept hlengthDef⟩

/-- How an array literal is built of the constants that have been read off its elements. -/
def literalAddress (generate : Generate) (l : ArrayLayout) (elements : List Node) (span : Span)
    (threshold : Nat) : Option (List Constant) → Gen ValueId
  | some data =>
    if threshold < data.length then arrayOfConstants l data span
    else arrayOfNodes generate l elements span
  | none => arrayOfNodes generate l elements span

/-- How an array literal is generated. -/
theorem arrayLiteral_run {generate : Generate} {elements : List Node}
    (hform : n.form = .arrayLiteral elements)
    (hl : ArrayLayout.of (n.type.substitute s.frame.subst) n.span = .ok l) :
    arrayLiteral generate n env s = (do
      let data ← constantData l elements
      let address ← literalAddress generate l elements n.span env.config.literalBufferThreshold data
      return Value.object (.arrayAt l address)) env s := by
  unfold arrayLiteral
  rw [hform]
  dsimp only
  rw [run_bind_of_ok (show nodeType n env s = .ok _ s from rfl), hl,
    run_bind_of_ok (show ofExcept (.ok l) env s = .ok l s from rfl), run_bind, run_bind]
  cases constantData l elements env s with
  | error e t => rfl
  | ok data t =>
    cases data with
    | none => rfl
    | some data =>
      dsimp only [literalAddress]
      rw [run_bind_of_ok (show config env t = .ok env.config t from rfl)]
      split <;> rfl

/-- What is read off the elements: nothing, if they are stored as pointers. The options have no part
in it. -/
theorem constantData_run (env : Env) (s : GenState) (l : ArrayLayout) (elements : List Node) :
    constantData l elements env s = .ok none s ∨
      constantData l elements env s = match constantElements s.frame.subst l elements with
        | .ok data => .ok data s
        | .error e => .error (.reported e) s := by
  unfold constantData
  cases l.storage with
  | boxed => exact .inl rfl
  | unboxed t =>
    refine .inr ?_
    show ofExcept (constantElements s.frame.subst l elements) env s = _
    cases constantElements s.frame.subst l elements <;> rfl

theorem constantData_env (env env' : Env) {s : GenState} {elements : List Node} :
    constantData l elements env s = constantData l elements env' s := by
  unfold constantData
  cases l.storage with
  | boxed => rfl
  | unboxed t =>
    show ofExcept (constantElements s.frame.subst l elements) env s =
      ofExcept (constantElements s.frame.subst l elements) env' s
    cases constantElements s.frame.subst l elements <;> rfl

theorem constantData_error {elements : List Node} {e : Failure}
    (h : constantData l elements env s = .error e t) :
    t = s ∧ ∃ cause, e = .reported cause ∧
      constantElements s.frame.subst l elements = .error cause := by
  rcases constantData_run env s l elements with hd | hd
  · cases hd.symm.trans h
  · cases hc : constantElements s.frame.subst l elements with
    | error cause =>
      rw [hc] at hd
      cases hd.symm.trans h
      exact ⟨rfl, cause, rfl, rfl⟩
    | ok data =>
      rw [hc] at hd
      cases hd.symm.trans h

theorem constantData_ok {elements : List Node} {data : Option (List Constant)}
    (h : constantData l elements env s = .ok data t) :
    t = s ∧ ∀ cs, data = some cs → constantElements s.frame.subst l elements = .ok (some cs) := by
  rcases constantData_run env s l elements with hd | hd
  · cases hd.symm.trans h
    exact ⟨rfl, fun _ hs => by cases hs⟩
  · cases hc : constantElements s.frame.subst l elements with
    | error cause =>
      rw [hc] at hd
      cases hd.symm.trans h
    | ok data' =>
      rw [hc] at hd
      cases hd.symm.trans h
      exact ⟨rfl, fun _ hs => by rw [hs]⟩

/-! ## The function under construction stays -/

/-- Elements of an array, whatever they are, leave the function under construction in place. -/
theorem operands_inside (depth : Nat) (elements : List Node) (type : StaticType)
    (hs : s.Inside) {xs : List ValueId}
    (h : elements.mapM (generateOperand (Gen.generate depth) · type) env s = .ok xs t) :
    t.Inside := by
  have hrun : Enlarges env _ (elements.mapM (generateOperand (Gen.generate depth) · type)) :=
    Enlarges.pervasive.mapM fun n _ => Enlarges.pervasive.generateOperand (enlarges_generate depth n) type
  obtain ⟨f, hf⟩ := hs
  have hadded := (hrun.2 s).ok h
  obtain ⟨g, hg, -⟩ := hadded.within hf
  exact ⟨g, by rwa [hadded.function]⟩

/-! ## Literals -/

section Literals

variable {elements : List Node} {depth : Nat} {at' : Span} {type : StaticType}

theorem length_of_mapM {α β : Type} {f : α → Gen β} : ∀ {as : List α} {bs : List β} {s t : GenState},
    as.mapM f env s = .ok bs t → bs.length = as.length
  | [], bs, s, t, h => by
    rw [(pure_ok h).1]
    rfl
  | a :: as, bs, s, t, h => by
    rw [List.mapM_cons] at h
    obtain ⟨b, s₁, -, h⟩ := bind_ok h
    obtain ⟨bs', s₂, hbs, h⟩ := bind_ok h
    rw [(pure_ok h).1, List.length_cons, List.length_cons, length_of_mapM hbs]

/-- An array of constants has these as its elements, whichever way it is built. -/
theorem literalAddress_lists (hr : env.registry = .standard) (hl : ArrayLayout.of type at' = .ok l)
    (hs : s.Open) {data : List Constant} {address : ValueId} {threshold : Nat}
    (hdata : constantElements s.frame.subst l elements = .ok (some data))
    (h : literalAddress (Gen.generate (depth + 1)) l elements span threshold (some data) env s =
      .ok address t) : t.Lists l address data := by
  by_cases hlong : threshold < data.length
  · rw [literalAddress, if_pos hlong] at h
    exact .inr (arrayOfConstants_copies hs.inside h)
  · rw [literalAddress, if_neg hlong] at h
    obtain ⟨xs, s₁, hxs, hcont, -, hall⟩ := constantElements_compute hr hl depth hs hdata
    rw [arrayOfNodes, run_bind_of_ok hxs] at h
    obtain ⟨hcont', hbuilds⟩ := arrayOfOperands_builds hcont.inside h
    exact .inl ⟨xs, hbuilds, hall.imp fun _ _ => hcont'.computes⟩

/-- An array of constants can be built in either way, if the names of the support library are spared. -/
theorem literalAddress_succeeds (hr : env.registry = .standard) (hl : ArrayLayout.of type at' = .ok l)
    (hs : s.Open) (hanswers : s.unit.module.Answers) {data : List Constant} {threshold : Nat}
    (hdata : constantElements s.frame.subst l elements = .ok (some data)) :
    ∃ address t, literalAddress (Gen.generate (depth + 1)) l elements span threshold (some data) env s =
      .ok address t := by
  have hclosed : s.closed = false := by
    obtain ⟨f, hf, hu⟩ := hs
    rw [GenState.closed, GenState.query_eq _ hf, Function.isTerminated_eq, hu.2]
    rfl
  have hsolo : Solo env s.frame.subst true true
      (literalAddress (Gen.generate (depth + 1)) l elements span threshold (some data)) := by
    by_cases hlong : threshold < data.length
    · rw [literalAddress, if_pos hlong]
      exact .arrayOfConstants (Roster.outlook.storage_of hl) data span
    · rw [literalAddress, if_neg hlong]
      exact .arrayOfNodes hr hl hdata depth span
  have hrun := hsolo s ⟨hanswers, hs.inside, rfl⟩
  rw [hclosed, Bool.false_and, if_neg Bool.false_ne_true] at hrun
  obtain ⟨address, t, hrun, -⟩ := hrun
  exact ⟨address, t, hrun⟩

/-- **Array literals.** What is read off the elements of an array literal is what their code computes.
If an element is refused there, the code of the elements is refused with the same error. If each has a
constant, the code of the elements succeeds, and it computes these constants, one for each element and
in their order; so whether the array is made of the operands or copied from the data, its elements and
its length are the same. If some element has none, the array is made of the operands in any case. -/
theorem arrayLiteral_denotes (hr : env.registry = .standard) (hs : s.Open)
    (hform : n.form = .arrayLiteral elements)
    (hl : ArrayLayout.of (n.type.substitute s.frame.subst) n.span = .ok l) (depth : Nat) :
    (∀ e t, constantData l elements env s = .error e t →
      ∃ t', elements.mapM (generateOperand (Gen.generate (depth + 1)) · l.element) env s = .error e t') ∧
    (∀ data t, constantData l elements env s = .ok (some data) t →
      data.length = elements.length ∧
      ∃ xs t', elements.mapM (generateOperand (Gen.generate (depth + 1)) · l.element) env s =
        .ok xs t' ∧ List.Forall₂ t'.Computes xs data) ∧
    ∀ threshold : Nat,
      let env' := { env with config := { env.config with literalBufferThreshold := threshold } }
      let literal := arrayLiteral (Gen.generate (depth + 1)) n env' s
      match constantData l elements env s with
      | .error e _ => literal = .error e s
      | .ok (some data) _ => (s.unit.module.Answers → ∃ v t, literal = .ok v t) ∧
        ∀ v t, literal = .ok v t → ∃ address, v = .object (.arrayAt l address) ∧ t.Lists l address data
      | .ok none _ => ∀ v t, literal = .ok v t → ∃ address xs t',
        v = .object (.arrayAt l address) ∧
        elements.mapM (generateOperand (Gen.generate (depth + 1)) · l.element) env' s = .ok xs t' ∧
        xs.length = elements.length ∧ t'.Continues t ∧ t.Builds l address xs := by
  refine ⟨fun e t he => ?_, fun data t hd => ?_, fun threshold => ?_⟩
  · obtain ⟨-, cause, rfl, hconst⟩ := constantData_error he
    exact constantElements_refused hr hl depth hs hconst
  · obtain ⟨xs, t', hxs, -, -, hall⟩ :=
      constantElements_compute hr hl depth hs ((constantData_ok hd).2 data rfl)
    exact ⟨hall.length_eq.symm.trans (length_of_mapM hxs), xs, t', hxs, hall⟩
  intro env' literal
  have hrun : literal = _ := arrayLiteral_run hform hl
  rw [run_bind] at hrun
  rw [constantData_env env env']
  cases hd : constantData l elements env' s with
  | error e t =>
    obtain ⟨rfl, -⟩ := constantData_error hd
    rw [hd] at hrun
    exact hrun
  | ok data t =>
    obtain ⟨rfl, hconst⟩ := constantData_ok hd
    rw [hd] at hrun
    -- a literal that has been generated has an address that has been
    have addressed {v : Value} {t' : GenState} (h : literal = .ok v t') :
        ∃ address, v = .object (.arrayAt l address) ∧ literalAddress (Gen.generate (depth + 1)) l
          elements n.span threshold data env' t = .ok address t' := by
      obtain ⟨address, t₁, haddress, h⟩ := bind_ok (hrun.symm.trans h)
      obtain ⟨rfl, rfl⟩ := pure_ok h
      exact ⟨address, rfl, haddress⟩
    cases data with
    | some data =>
      have hr : env'.registry = .standard := hr
      refine ⟨fun hanswers => ?_, fun v t' h => ?_⟩
      · obtain ⟨address, t', haddress⟩ :=
          literalAddress_succeeds hr hl hs hanswers (hconst data rfl)
        exact ⟨_, t', hrun.trans (run_bind_of_ok haddress)⟩
      · obtain ⟨address, rfl, haddress⟩ := addressed h
        exact ⟨address, rfl, literalAddress_lists hr hl hs (hconst data rfl) haddress⟩
    | none =>
      intro v t' h
      obtain ⟨address, rfl, haddress⟩ := addressed h
      obtain ⟨xs, t₁, hxs, h⟩ := bind_ok haddress
      obtain ⟨hcont, hbuilds⟩ :=
        arrayOfOperands_builds (operands_inside (depth + 1) elements l.element hs.inside hxs) h
      exact ⟨address, xs, t₁, rfl, hxs, length_of_mapM hxs, hcont, hbuilds⟩

/-- A state at the head of a function. -/
def atHead : GenState :=
  let f := (Function.shell "f" [] .void .internal).addBlock "entry"
  { unit := { module := ({ name := "m" } : Module).addFunction f }
    frame := { Frame.outside with function := ⟨0⟩, block := ⟨0⟩ } }

/-- The literal `[1, 2]` of type `number[]`, with elements of type `int`. -/
def twoNumbers : Node :=
  let element (text : String) : Node := .mk ⟨0⟩ .dummy .int (.numericLiteral text)
  .mk ⟨0⟩ .dummy (.array .number) (.arrayLiteral [element "1", element "2"])

/-- Copied or not, its elements are the doubles one and two. -/
theorem arrayLiteral_denotes_twoNumbers :
    let env (threshold : Nat) : Env := ⟨{}, { literalBufferThreshold := threshold }, .standard⟩
    let l : ArrayLayout := ⟨.number, .unboxed .f64⟩
    atHead.Open ∧ ArrayLayout.of (twoNumbers.type.substitute atHead.frame.subst) twoNumbers.span = .ok l ∧
      ∀ threshold ∈ [0, 16], ∃ v t address,
        arrayLiteral (Gen.generate 1) twoNumbers (env threshold) atHead = .ok v t ∧
          v = .object (.arrayAt l address) ∧ t.Lists l address [.float (.ofInt 1), .float (.ofInt 2)] := by
  intro env l
  have hs : atHead.Open := ⟨_, rfl, Nat.one_pos, rfl⟩
  have hl : ArrayLayout.of (twoNumbers.type.substitute atHead.frame.subst) twoNumbers.span = .ok l := rfl
  refine ⟨hs, hl, fun threshold _ => ?_⟩
  have hregistry : (env 0).registry = .standard := rfl
  have hmain := (arrayLiteral_denotes hregistry hs rfl hl 0).2.2 threshold
  have hanswers : atHead.unit.module.Answers :=
    (Module.Answers.empty "m").addFunction fun support _ hname =>
      (SupportFunction.not_names_of_stems (by decide) ⟨support, hname.symm⟩).elim
  obtain ⟨hruns, hlists⟩ := hmain
  obtain ⟨v, t, hrun⟩ := hruns hanswers
  obtain ⟨address, hv, hlists⟩ := hlists v t hrun
  exact ⟨v, t, address, hrun, hv, hlists⟩

end Literals

end Gen

end TypedLowering
