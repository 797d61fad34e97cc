import TypedLowering.Proofs.Lowering.Termination
import TypedLowering.Proofs.Options.Access

/-!
The options make no difference to what a program compiles to, as seen from outside. Two runs with
different options go over the same trees in step: they are in corresponding functions, with the same
blocks open, and whatever one of them refuses the other refuses with the same error. Only where one
array literal is copied and the other one built does the second run descend further, so it is given
more depth.
-/
namespace TypedLowering
set_option autoImplicit false
open Ssa

/-- A program without a function that is defined elsewhere under the name of a support function. -/
def Program.SparesSupport (p : Program) : Prop :=
  ∀ decl ∈ p.functions, decl.body = none → ¬ SupportFunction.Names decl.name

/-! ## States -/

/-- States of two runs at corresponding places of corresponding functions. -/
structure GenState.Twin (w : Roster) (s s' : GenState) : Prop where
  unit : s.unit.Twin w s'.unit
  frame : Roster.outlook.frame (fun t => t) w s.frame s'.frame
  current : (s.frame.function, s'.frame.function) ∈ w.pairs

namespace GenState.Twin

variable {w : Roster} {s s' t t' : GenState}

theorem ready (h : s.Twin w s') : s.Ready s.frame.subst where
  answers := h.unit.answers
  current := by
    obtain ⟨f, _, hf, -⟩ := h.unit.twins h.current
    exact ⟨f, hf⟩
  subst := rfl

theorem ready' (h : s.Twin w s') : s'.Ready s'.frame.subst where
  answers := h.unit.answers'
  current := by
    obtain ⟨_, f', -, hf', -⟩ := h.unit.twins h.current
    exact ⟨f', hf'⟩
  subst := rfl

theorem closed (h : s.Twin w s') : s'.closed = s.closed := by
  obtain ⟨f, f', hf, hf', hm⟩ := h.unit.twins h.current
  unfold GenState.closed
  rw [s'.query_eq hf', s.query_eq hf, h.frame.block, hm.isTerminated]

theorem drifts {raised : Bool} (h : s.Twin w s') (hd : s.Drifts raised t)
    (hd' : s'.Drifts raised t') : t.Twin w t' where
  unit := h.unit.drifts hd.unit hd'.unit
  frame := by
    rw [hd.frame, hd'.frame]
    exact h.frame
  current := by
    rw [hd.frame, hd'.frame]
    exact h.current

theorem mapFunction (h : s.Twin w s') (g g' : Function → Function)
    (hg : ∀ f, (g f).heading = f.heading ∧ (g f).linkage = f.linkage)
    (hg' : ∀ f, (g' f).heading = f.heading ∧ (g' f).linkage = f.linkage)
    (hends : ∀ f f' : Function, f.ends = f'.ends → (g f).ends = (g' f').ends) :
    (s.mapFunction g).Twin w (s'.mapFunction g') := by
  obtain ⟨f, f', hf, hf', hm⟩ := h.unit.twins h.current
  have hedit := h.unit.edit h.current g g' hf hf' (hg f).1 (hg' f').1 {
    heading := by rw [(hg' f').1, (hg f).1, hm.heading]
    linkage := by rw [(hg' f').2, (hg f).2, hm.linkage]
    ends := (hends f f' hm.ends.symm).symm }
  exact ⟨hedit, h.frame, h.current⟩

end GenState.Twin

namespace Gen

variable {α β : Type} {env env' : Env} {s s' : GenState} {w : Roster} {m m' : Gen α}
  {f f' : α → Gen β}

/-! ## Two runs -/

/-- Unless the first run ends for lack of depth, the second one ends in the same way, and with `Q` if
they succeed. -/
def Concurs (env env' : Env) (s s' : GenState) (m m' : Gen α)
    (Q : α → α → GenState → GenState → Prop) : Prop :=
  Leads env s m (fun a t => ∃ a' t', m' env' s' = .ok a' t' ∧ Q a a' t t')
    fun e _ => e = .exhausted ∨ ∃ t', m' env' s' = .error e t'

namespace Concurs

variable {Q Q' : α → α → GenState → GenState → Prop} {U : β → β → GenState → GenState → Prop}

theorem of_ok {a a' : α} {t t' : GenState} (hm : m env s = .ok a t) (hm' : m' env' s' = .ok a' t')
    (hq : Q a a' t t') : Concurs env env' s s' m m' Q :=
  Leads.of_ok hm ⟨a', t', hm', hq⟩

theorem of_error {e : Failure} {t t' : GenState} (hm : m env s = .error e t)
    (hm' : m' env' s' = .error e t') : Concurs env env' s s' m m' Q :=
  Leads.of_error hm (.inr ⟨t', hm'⟩)

theorem mono (h : Concurs env env' s s' m m' Q) (hq : ∀ a a' t t', Q a a' t t' → Q' a a' t t') :
    Concurs env env' s s' m m' Q' :=
  Leads.mono h (fun a t ⟨a', t', hm', h⟩ => ⟨a', t', hm', hq a a' t t' h⟩) fun _ _ he => he

protected theorem bind (hm : Concurs env env' s s' m m' Q)
    (hf : ∀ a a' t t', Q a a' t t' → Concurs env env' t t' (f a) (f' a') U) :
    Concurs env env' s s' (m >>= f) (m' >>= f') U := by
  unfold Concurs Leads
  rw [run_bind]
  cases h : m env s with
  | error e t =>
    rcases hm.error h with he | ⟨t', he⟩
    · exact .inl he
    · exact .inr ⟨t', by rw [run_bind, he]⟩
  | ok a t =>
    obtain ⟨a', t', hm', hq⟩ := hm.ok h
    have hrest := hf a a' t t' hq
    unfold Concurs Leads at hrest
    rwa [run_bind, hm']

/-- After steps that look something up. -/
theorem look {a a' : α} (hm : m env s = .ok a s) (hm' : m' env' s' = .ok a' s')
    (hf : Concurs env env' s s' (f a) (f' a') U) : Concurs env env' s s' (m >>= f) (m' >>= f') U := by
  refine .bind (Q := fun b b' t t' => b = a ∧ b' = a' ∧ t = s ∧ t' = s')
    (.of_ok hm hm' ⟨rfl, rfl, rfl, rfl⟩) ?_
  rintro _ _ _ _ ⟨rfl, rfl, rfl, rfl⟩
  exact hf

/-- After steps that look the same thing up. -/
theorem read {x : Except Failure α} (hm : Ends m env x) (hm' : Ends m' env' x)
    (hf : ∀ a, x = .ok a → Concurs env env' s s' (f a) (f' a) U) :
    Concurs env env' s s' (m >>= f) (m' >>= f') U := by
  refine .bind (Q := fun a a' t t' => a' = a ∧ x = .ok a ∧ t = s ∧ t' = s') ?_ ?_
  · have h := hm s
    have h' := hm' s'
    cases x with
    | ok a => exact .of_ok h h' ⟨rfl, rfl, rfl, rfl⟩
    | error e => exact .of_error h h'
  · rintro _ a _ _ ⟨rfl, hx, rfl, rfl⟩
    exact hf a hx

end Concurs

theorem ends_ofExcept (x : Except LoweringError α) : Ends (ofExcept x) env
    (match x with
      | .ok a => .ok a
      | .error e => .error (.reported e)) := fun s => by
  cases x <;> rfl

theorem declareExternal_run (s : GenState) (name : String) (params : List Ty) (ret : Ty)
    (attrs : Attributes) (variadic : Bool) (span : Span) :
    declareExternal name params ret attrs variadic span env s =
      match s.unit.module.declare name params ret attrs variadic with
      | .ok (id, m) => .ok id { s with unit := { s.unit with module := m } }
      | .error c => .error (.reported ⟨.unsupportedOperation
          ("external declaration `" ++ c.name ++ ": " ++ c.requested ++ "`") c.existing, span⟩) s := by
  have hrun : declareExternal name params ret attrs variadic span env s =
      (match s.unit.module.declare name params ret attrs variadic with
      | .ok (id, m) => do
        modifyUnit fun u => { u with module := m }
        return id
      | .error c => unsupported ("external declaration `" ++ c.name ++ ": " ++ c.requested ++ "`")
        c.existing span : Gen FunctionId) env s := rfl
  rw [hrun]
  cases s.unit.module.declare name params ret attrs variadic <;> rfl

/-- Two runs in corresponding functions, with related results. -/
def Indifferent (env env' : Env) (α : Type) (w : Roster) (V : Roster → α → α → Prop) (m m' : Gen α) :
    Prop :=
  ∀ s s', s.Twin w s' →
    Concurs env env' s s' m m' fun a a' t t' => ∃ x : Roster, w ≤ x ∧ t.Twin x t' ∧ V x a a'

theorem Concurs.of_solo {strict raised : Bool} {V : Roster → α → α → Prop} (h : s.Twin w s')
    (hm : Solo env s.frame.subst strict raised m) (hm' : Solo env' s'.frame.subst strict raised m')
    (hV : ∀ a a', V w a a') :
    Concurs env env' s s' m m' fun a a' t t' => ∃ x : Roster, w ≤ x ∧ t.Twin x t' ∧ V x a a' := by
  have hrun := hm s h.ready
  have hrun' := hm' s' h.ready'
  rw [h.closed] at hrun'
  split at hrun
  · next hc =>
    obtain ⟨t, ht⟩ := hrun
    rw [if_pos hc] at hrun'
    obtain ⟨t', ht'⟩ := hrun'
    exact .of_error ht ht'
  · next hc =>
    obtain ⟨a, t, ht, hd⟩ := hrun
    rw [if_neg hc] at hrun'
    obtain ⟨a', t', ht', hd'⟩ := hrun'
    exact .of_ok ht ht' ⟨w, le_rfl, h.drifts hd hd', hV a a'⟩

namespace Indifferent

variable {V : Roster → α → α → Prop} {U : Roster → β → β → Prop}

protected theorem pure {a a' : α} (hV : V w a a') : Indifferent env env' α w V (pure a) (pure a') :=
  fun _ _ h => .of_ok rfl rfl ⟨w, le_rfl, h, hV⟩

protected theorem bind (hm : Indifferent env env' α w V m m')
    (hf : ∀ x a a', w ≤ x → V x a a' → Indifferent env env' β x U (f a) (f' a')) :
    Indifferent env env' β w U (m >>= f) (m' >>= f') := fun s s' h => by
  refine (hm s s' h).bind fun a a' t t' ⟨x, hx, ht, ha⟩ => ?_
  refine (hf x a a' hx ha t t' ht).mono fun b b' r r' ⟨y, hy, hr, hb⟩ => ?_
  exact ⟨y, hx.trans hy, hr, hb⟩

theorem of_solo {strict raised : Bool} (hm : ∀ subst, Solo env subst strict raised m)
    (hm' : ∀ subst, Solo env' subst strict raised m') (hV : ∀ a a', V w a a') :
    Indifferent env env' α w V m m' :=
  fun _ _ h => .of_solo h (hm _) (hm' _) hV

/-! ### Steps -/

theorem throw {e : Failure} : Indifferent env env' α w V (throw e) (throw e) :=
  fun _ _ _ => .of_error rfl rfl

theorem frame : Indifferent env env' Frame w (Roster.outlook.frame fun t => t) Gen.frame Gen.frame :=
  fun _ _ h => .of_ok rfl rfl ⟨w, le_rfl, h, h.frame⟩

theorem modifyFrame {g g' : Frame → Frame}
    (hg : ∀ f f' : Frame, Roster.outlook.frame (fun t => t) w f f' →
      Roster.outlook.frame (fun t => t) w (g f) (g' f'))
    (hfunction : ∀ f, (g f).function = f.function) (hfunction' : ∀ f, (g' f).function = f.function) :
    Indifferent env env' Unit w (fun _ => Eq) (Gen.modifyFrame g) (Gen.modifyFrame g') :=
  fun s s' h => .of_ok rfl rfl ⟨w, le_rfl, ⟨h.unit, hg _ _ h.frame, by
    show ((g s.frame).function, (g' s'.frame).function) ∈ w.pairs
    rw [hfunction, hfunction']
    exact h.current⟩, rfl⟩

theorem isTerminated : Indifferent env env' Bool w (fun _ => Eq) Gen.isTerminated Gen.isTerminated :=
  fun _ _ h => .of_ok rfl rfl ⟨w, le_rfl, h, h.closed.symm⟩

theorem requireOpen : Indifferent env env' Unit w (fun _ => Eq) Gen.requireOpen Gen.requireOpen :=
  .of_solo (fun _ => .requireOpen) (fun _ => .requireOpen) fun _ _ => rfl

theorem terminate (t t' : Terminator) :
    Indifferent env env' Unit w (fun _ => Eq) (Gen.terminate t) (Gen.terminate t') := by
  refine .bind requireOpen fun x _ _ _ _ => ?_
  refine fun s s' h => .of_ok rfl rfl ⟨x, le_rfl, ?_, rfl⟩
  refine h.mapFunction (fun f => f.terminate s.frame.block t)
    (fun f => f.terminate s'.frame.block t') (fun _ => ⟨rfl, rfl⟩) (fun _ => ⟨rfl, rfl⟩)
    fun f f' he => ?_
  rw [f.ends_terminate, f'.ends_terminate, he, h.frame.block]

theorem appendBlock (word : String) :
    Indifferent env env' BlockId w (fun _ => Eq) (Gen.appendBlock word) (Gen.appendBlock word) := by
  intro s s' h
  refine .of_ok rfl rfl ⟨w, le_rfl, ?_, ?_⟩
  · refine h.mapFunction (fun f => f.addBlock word) (fun f => f.addBlock word)
      (fun _ => ⟨rfl, rfl⟩) (fun _ => ⟨rfl, rfl⟩) fun f f' he => ?_
    rw [f.ends_addBlock, f'.ends_addBlock, he]
  · obtain ⟨f, f', hf, hf', hm⟩ := h.unit.twins h.current
    rw [s.query_eq hf, s'.query_eq hf', hm.nextBlock]

/-- Names that have nothing to do with the support library are bound alike. -/
theorem declares {u u' : UnitState} (h : u.Twin w u') {name : String}
    (hn : ¬ SupportFunction.Names name) (params : List Ty) (ret : Ty) (attrs attrs' : Attributes)
    (variadic : Bool) :
    (∃ id id' m m', u.module.declare name params ret attrs variadic = .ok (id, m) ∧
      u'.module.declare name params ret attrs' variadic = .ok (id', m') ∧
      UnitState.Twin w { u with module := m } { u' with module := m' }) ∨
    ∃ c, u.module.declare name params ret attrs variadic = .error c ∧
      u'.module.declare name params ret attrs' variadic = .error c := by
  have hheading := h.heading hn
  cases hl : u.module.lookup name with
  | none =>
    cases hl' : u'.module.lookup name with
    | none =>
      have hm : Function.Matches { Function.shell name params ret .external with attrs, variadic }
          { Function.shell name params ret .external with attrs := attrs', variadic } := ⟨rfl, rfl, rfl⟩
      exact .inl ⟨_, _, _, _, Module.declare_of_unbound hl, Module.declare_of_unbound hl',
        h.addFunction hm hn (List.append_nil w.pairs).symm⟩
    | some id' =>
      obtain ⟨f', hf'⟩ := h.answers'.bound hl'
      rw [Module.headingOf_of_lookup hl' hf', Module.headingOf, hl] at hheading
      cases hheading
  | some id =>
    obtain ⟨f, hf⟩ := h.answers.bound hl
    rw [Module.headingOf_of_lookup hl hf] at hheading
    cases hl' : u'.module.lookup name with
    | none =>
      rw [Module.headingOf, hl'] at hheading
      cases hheading
    | some id' =>
      obtain ⟨f', hf'⟩ := h.answers'.bound hl'
      rw [Module.headingOf_of_lookup hl' hf'] at hheading
      rw [Module.declare_of_bound hl hf, Module.declare_of_bound hl' hf', Option.some.inj hheading]
      split
      · exact .inl ⟨_, _, _, _, rfl, rfl, h⟩
      · exact .inr ⟨_, rfl, rfl⟩

theorem declareExternal {name : String} (hn : ¬ SupportFunction.Names name) (params : List Ty)
    (ret : Ty) (attrs attrs' : Attributes) (variadic : Bool) (span : Span) (h : s.unit.Twin w s'.unit) :
    Concurs env env' s s' (Gen.declareExternal name params ret attrs variadic span)
      (Gen.declareExternal name params ret attrs' variadic span) fun _ _ t t' =>
        t.unit.Twin w t'.unit ∧ t.frame = s.frame ∧ t'.frame = s'.frame := by
  have hrun : Gen.declareExternal name params ret attrs variadic span env s = _ :=
    declareExternal_run s name params ret attrs variadic span
  have hrun' : Gen.declareExternal name params ret attrs' variadic span env' s' = _ :=
    declareExternal_run s' name params ret attrs' variadic span
  rcases declares h hn params ret attrs attrs' variadic with
    ⟨id, id', m, m', hd, hd', ht⟩ | ⟨c, hd, hd'⟩
  · rw [hd] at hrun
    rw [hd'] at hrun'
    exact .of_ok hrun hrun' ⟨ht, rfl, rfl⟩
  · rw [hd] at hrun
    rw [hd'] at hrun'
    exact .of_error hrun hrun'

theorem describe (h : s.Twin w s') (cls : ClassId) {d d' : ClassDescriptor} (hd : d.Matches d') :
    (s.describe cls d).Twin w (s'.describe cls d') where
  unit := { h.unit with
    descriptors := fun cls' => by
      show Option.Rel _ ((s.unit.descriptors.insert cls d).get? cls')
        ((s'.unit.descriptors.insert cls d').get? cls')
      by_cases heq : cls = cls'
      · subst heq
        rw [Dict.get?_insert_self, Dict.get?_insert_self]
        exact .some hd
      · rw [Dict.get?_insert_of_ne _ _ heq, Dict.get?_insert_of_ne _ _ heq]
        exact h.unit.descriptors cls' }
  frame := h.frame
  current := h.current

theorem descriptor (hp : env'.program = env.program) (cls : ClassId) :
    Indifferent env env' ClassDescriptor w (fun _ => ClassDescriptor.Matches) (Gen.descriptor cls)
      (Gen.descriptor cls) := by
  intro s s' h
  have hrun : Gen.descriptor cls env s = _ := descriptor_run s cls
  have hrun' : Gen.descriptor cls env' s' = _ := descriptor_run s' cls
  have hknown := h.unit.descriptors cls
  rw [buildDescriptor_run] at hrun hrun'
  rw [hp] at hrun'
  generalize s.unit.descriptors.get? cls = d, s'.unit.descriptors.get? cls = d' at *
  cases hknown with
  | some hd => exact .of_ok hrun hrun' ⟨w, le_rfl, h, hd⟩
  | none =>
    cases hdecl : env.program.class? cls with
    | none =>
      rw [hdecl] at hrun hrun'
      exact .of_error hrun hrun'
    | some decl =>
      rw [hdecl] at hrun hrun'
      dsimp only at hrun hrun'
      cases hfields : decl.fieldInfos with
      | error e =>
        rw [hfields] at hrun hrun'
        exact .of_error hrun hrun'
      | ok fields =>
        rw [hfields] at hrun hrun'
        dsimp only at hrun hrun'
        cases hmethods : env.program.methodNames decl with
        | error e =>
          rw [hmethods] at hrun hrun'
          exact .of_error hrun hrun'
        | ok methods =>
          rw [hmethods] at hrun hrun'
          have hadd : (s.addStruct (decl.struct fields)).Twin w (s'.addStruct (decl.struct fields)) :=
            h.drifts (.of_quiet (.abandoned (p := env.program) _) rfl)
              (.of_quiet (.abandoned (p := env.program) _) rfl)
          have hd : (decl.descriptor cls fields methods s.unit.module.nextStruct).Matches
              (decl.descriptor cls fields methods s'.unit.module.nextStruct) := ⟨_, trivial, rfl⟩
          exact .of_ok hrun hrun' ⟨w, le_rfl, describe hadd cls hd, hd⟩

theorem steps (hp : env'.program = env.program) (hr : env'.registry = env.registry) :
    Steps Roster.outlook env env' (fun t => t) (Indifferent env env') where
  similar := ⟨hr, _, by rw [hp]⟩
  hints := trivial
  pure := .pure
  bind := .bind
  throw := fun _ _ => .throw
  reads := fun _ _ h => .of_ok rfl rfl ⟨_, le_rfl, h, rfl, rfl⟩
  frame := frame
  modifyFrame := fun hg hkeep hkeep' => modifyFrame hg (fun f => (hkeep f).1) fun f => (hkeep' f).1
  isTerminated := isTerminated
  emit := fun _ => .of_solo (fun _ => .emit _) (fun _ => .emit _) fun _ _ => trivial
  emitBinary := fun _ _ _ _ _ _ _ =>
    .of_solo (fun _ => .emitBinary _ _ _) (fun _ => .emitBinary _ _ _) fun _ _ => trivial
  emitSelect := fun _ _ _ =>
    .of_solo (fun _ => .emitSelect _ _ _) (fun _ => .emitSelect _ _ _) fun _ _ => trivial
  fieldPtr := fun _ _ _ => .of_solo (fun _ => .emit _) (fun _ => .emit _) fun _ _ => trivial
  emitSlot := fun _ => .of_solo (fun _ => .emitSlot _) (fun _ => .emitSlot _) fun _ _ => trivial
  terminate := fun {_ t t'} _ => terminate t t'
  appendBlock := fun word s s' h => (appendBlock word s s' h).mono
    fun _ _ _ _ ⟨x, hx, ht, ha⟩ => ⟨x, hx, ht, ha, trivial⟩
  positionAt := fun _ => modifyFrame (fun _ _ hf => { hf with block := rfl }) (fun _ => rfl) fun _ => rfl
  param := fun _ => trivial
  arrayHeader := .of_solo (fun _ => .arrayHeader) (fun _ => .arrayHeader) fun _ _ => trivial
  descriptor := descriptor hp
  callSupport := fun f _ _ span hs _ =>
    .of_solo (fun _ => .callSupport f hs _ span) (fun _ => .callSupport f hs _ span)
      fun _ _ => trivial
  declareMath := fun arity _ _ span hs _ => fun s s' h =>
    (declareExternal (SupportFunction.not_names_math hs) _ _ _ _ _ span h.unit).mono
      fun _ _ _ _ ⟨ht, hf, hf'⟩ => ⟨_, le_rfl, ⟨ht, by rw [hf, hf']; exact h.frame,
        by rw [hf, hf']; exact h.current⟩, trivial⟩
  callFunction := fun _ _ _ =>
    .of_solo (fun _ => .callFunction _ _ _) (fun _ => .callFunction _ _ _) fun _ _ => trivial

/-! ### Array literals -/

/-- Elements that were not reached because the depth ran out. -/
theorem arrayOfNodes_exhausted (env : Env) (s : GenState) (l : ArrayLayout) {elements : List Node}
    (hne : elements ≠ []) (at' : Span) : ∃ t, Gen.arrayOfNodes (Gen.generate 0) l elements at' env s =
      .error .exhausted t := by
  obtain ⟨n, rest, rfl⟩ := List.exists_cons_of_ne_nil hne
  exact ⟨s, rfl⟩

variable {depth depth' : Nat}

/-- A literal is copied from constant data or built from its elements; it makes no difference. -/
theorem arrayOfLiteral (hr : env.registry = .standard) (hr' : env'.registry = .standard)
    (hlt : depth < depth') {t : StaticType} {l : ArrayLayout} (elements : List Node) (span : Span)
    (hl : ArrayLayout.of t span = .ok l)
    (hn : Indifferent env env' ValueId w Roster.outlook.operand
      (Gen.arrayOfNodes (Gen.generate depth) l elements span)
      (Gen.arrayOfNodes (Gen.generate depth') l elements span)) :
    Indifferent env env' ValueId w Roster.outlook.operand
      (Gen.arrayOfLiteral (Gen.generate depth) l elements span)
      (Gen.arrayOfLiteral (Gen.generate depth') l elements span) := by
  intro s s' h
  have hstorable := Roster.outlook.storage_of hl
  have hsame : constantElements s'.frame.subst l elements = constantElements s.frame.subst l elements := by
    have hmap := Steps.constantElements_retyped (φ := fun t => t) h.frame.subst l elements
    rwa [List.map_id'' Node.retyped_self] at hmap
  unfold Gen.arrayOfLiteral
  cases hstorage : l.storage with
  | boxed =>
    have hnone {env : Env} {s : GenState} : constantData l elements env s = .ok none s := by
      unfold constantData
      rw [hstorage]
      rfl
    exact .look hnone hnone (hn s s' h)
  | unboxed u =>
    have run (env : Env) (s : GenState) : constantData l elements env s =
        ofExcept (constantElements s.frame.subst l elements) env s := by
      unfold constantData
      rw [hstorage]
      rfl
    have hrun := run env s
    have hrun' := run env' s'
    rw [hsame] at hrun'
    cases hdata : constantElements s.frame.subst l elements with
    | error e =>
      rw [hdata] at hrun hrun'
      exact .bind (Q := fun _ _ _ _ => False) (.of_error hrun hrun') fun _ _ _ _ => False.elim
    | ok data =>
      rw [hdata] at hrun hrun'
      refine .look hrun hrun' ?_
      cases data with
      | none => exact hn s s' h
      | some xs =>
        rw [hdata] at hsame
        refine .look (a := env.config) rfl rfl ?_
        obtain ⟨k, rfl⟩ : ∃ k, depth' = k + 1 := ⟨depth' - 1, by omega⟩
        have copied {env : Env} {subst : Substitution} :
            Solo env subst true true (Gen.arrayOfConstants l xs span) :=
          .arrayOfConstants hstorable xs span
        have built' := Solo.arrayOfNodes hr' hl hsame k span
        split
        · split
          · exact .of_solo h copied copied fun _ _ => trivial
          · exact .of_solo h copied built' fun _ _ => trivial
        · split
          · next hlong =>
            cases depth with
            | zero =>
              have hne : elements ≠ [] := by
                rintro rfl
                cases hdata
                cases hlong
              obtain ⟨t, ht⟩ := arrayOfNodes_exhausted env s l hne span
              exact Leads.of_error ht (.inl rfl)
            | succ k' =>
              have built := Solo.arrayOfNodes hr hl hdata k' span
              exact .of_solo h built copied fun _ _ => trivial
          · exact hn s s' h

/-! ### Requests -/

/-- What the bodies of a specialization come to in the two runs. -/
abbrev Bodies (env env' : Env) (generate generate' : Generate) (sp : Specialization) (span : Span) :
    Prop :=
  ∀ (body : Node) (x : Roster), Indifferent env env' Unit x (fun _ => Eq)
    (generateBody generate sp body span) (generateBody generate' sp body span)

variable {generate generate' : Generate} {sp : Specialization} {span : Span}

/-- The two runs enter the definition of a specialization. -/
theorem started (h : s.unit.Twin w s'.unit) (sp : Specialization) (p : Program) (params : List Ty)
    (ret : Ty) :
    (s.started sp (sp.symbol p) params ret).Twin
      ⟨w.pairs ++ [(s.unit.module.nextFunction, s'.unit.module.nextFunction)]⟩
      (s'.started sp (sp.symbol p) params ret) := by
  have hname : ¬ SupportFunction.Names (sp.symbol p) :=
    SupportFunction.not_names_of_isReserved (sp.isReserved_symbol p)
  have hadd := h.addFunction
    (.refl ((Function.shell (sp.symbol p) params ret .internal).addBlock "entry")) hname
    (x := ⟨w.pairs ++ [(s.unit.module.nextFunction, s'.unit.module.nextFunction)]⟩) rfl
  have hlast : (s.unit.module.nextFunction, s'.unit.module.nextFunction) ∈
      w.pairs ++ [(s.unit.module.nextFunction, s'.unit.module.nextFunction)] := by simp
  refine ⟨{ hadd with table := fun symbol => ?_, generated := ?_ }, ?_, hlast⟩
  · show Option.Rel _ ((s.unit.specializations.insert (sp.symbol p) _).get? symbol)
      ((s'.unit.specializations.insert (sp.symbol p) _).get? symbol)
    by_cases heq : sp.symbol p = symbol
    · subst heq
      rw [Dict.get?_insert_self, Dict.get?_insert_self]
      exact .some hlast
    · rw [Dict.get?_insert_of_ne _ _ heq, Dict.get?_insert_of_ne _ _ heq]
      exact hadd.table symbol
  · exact congrArg (· + 1) h.generated
  · exact ⟨rfl, .nil, rfl, rfl, fun _ => rfl, .none⟩

/-- Requests for definitions get the same answers. -/
theorem requestDefinition (hp : env'.program = env.program)
    (hbody : Bodies env env' generate generate' sp span) (h : s.unit.Twin w s'.unit) (body : Node)
    (params : List Ty) (ret : Ty) :
    Concurs env env' s s' (Gen.requestDefinition generate sp body params ret span)
      (Gen.requestDefinition generate' sp body params ret span) fun id id' t t' =>
        ∃ x : Roster, w ≤ x ∧ t.unit.Twin x t'.unit ∧ t.frame = s.frame ∧ t'.frame = s'.frame ∧
          (id, id') ∈ x.pairs := by
  have hrun : Gen.requestDefinition generate sp body params ret span env s = _ :=
    requestDefinition_run s body params ret
  have hrun' : Gen.requestDefinition generate' sp body params ret span env' s' = _ :=
    requestDefinition_run s' body params ret
  have htable := h.table (sp.symbol env.program)
  rw [hp] at hrun'
  generalize s.unit.specializations.get? (sp.symbol env.program) = known,
    s'.unit.specializations.get? (sp.symbol env.program) = known' at *
  cases htable with
  | some hid =>
    exact .of_ok hrun hrun' ⟨w, le_rfl, { h with cacheHits := congrArg (· + 1) h.cacheHits }, rfl, rfl,
      hid⟩
  | none =>
    have hstarted := started h sp env.program params ret
    have hruns := hbody body _ _ _ hstarted
    dsimp only at hrun hrun'
    cases hb : generateBody generate sp body span env
        (s.started sp (sp.symbol env.program) params ret) with
    | error e t =>
      rw [hb] at hrun
      rcases hruns.error hb with he | ⟨t', hb'⟩
      · exact Leads.of_error hrun (.inl he)
      · rw [hb'] at hrun'
        exact .of_error hrun hrun'
    | ok a t =>
      obtain ⟨a', t', hb', x, hx, ht, -⟩ := hruns.ok hb
      rw [hb] at hrun
      rw [hb'] at hrun'
      refine .of_ok hrun hrun' ⟨x, ?_, ht.unit, rfl, rfl, hx (List.mem_append_right _ List.mem_cons_self)⟩
      exact List.Subset.trans (List.subset_append_left _ _) hx

/-- Requests get the same answers. -/
theorem specialize (hp : env'.program = env.program) (hs : env.program.SparesSupport)
    (hname : ∀ decl, env.program.function? sp.func = some decl → sp.name = decl.name)
    (hbody : Bodies env env' generate generate' sp span) (h : s.unit.Twin w s'.unit) :
    Concurs env env' s s' (Gen.specialize generate sp span) (Gen.specialize generate' sp span)
      fun id id' t t' => ∃ x : Roster, w ≤ x ∧ t.unit.Twin x t'.unit ∧ t.frame = s.frame ∧
        t'.frame = s'.frame ∧ ∀ decl, env.program.function? sp.func = some decl →
          decl.body.isSome = true → (id, id') ∈ x.pairs := by
  have hfunction (id : FuncId) : env'.program.function? id = env.program.function? id := by rw [hp]
  have hdecl' : Ends (functionDecl sp.func) env' _ := ends_functionDecl sp.func
  rw [hfunction] at hdecl'
  refine .read (ends_ofExcept _) (ends_ofExcept _) fun params _ => ?_
  refine .read (ends_layout _ _) (ends_layout _ _) fun ret _ => ?_
  refine .read (ends_functionDecl _) hdecl' fun decl hdecl => ?_
  have hdecl : env.program.function? sp.func = some decl := by
    split at hdecl
    · next d hd => cases hdecl; exact hd
    · cases hdecl
  split
  · next hnone =>
    have hspared : ¬ SupportFunction.Names sp.name := by
      rw [hname decl hdecl]
      exact hs decl (Array.mem_of_getElem? hdecl) hnone
    refine (declareExternal hspared _ _ _ _ _ _ h).mono ?_
    rintro id id' t t' ⟨ht, hf, hf'⟩
    refine ⟨w, le_rfl, ht, hf, hf', fun decl' hd hsome => ?_⟩
    cases hdecl.symm.trans hd
    rw [hnone] at hsome
    cases hsome
  · next body _ =>
    refine (requestDefinition hp hbody h body params ret).mono ?_
    rintro id id' t t' ⟨x, hx, ht, hf, hf', hid⟩
    exact ⟨x, hx, ht, hf, hf', fun _ _ _ => hid⟩

/-! ### Trees -/

variable {depth depth' : Nat}

theorem coupling (hp : env'.program = env.program) (hr : env.registry = .standard)
    (hr' : env'.registry = .standard) (hlt : depth < depth') {Calls : Signature → Prop}
    (request : ∀ {w : Roster} {signature : Signature} {sp : Specialization} {decl : FunctionDecl}
      {typeArgs : List StaticType} {argCount : Nat} (span : Span) (args args' : List ValueId),
      Calls signature → env.program.function? signature.func = some decl →
      Specialization.resolve env.program signature.func decl typeArgs argCount span = .ok sp →
      Indifferent env env' ValueId w Roster.outlook.operand
        (do Gen.callFunction (← Gen.specialize (Gen.generate depth) sp span) args .none)
        (do Gen.callFunction (← Gen.specialize (Gen.generate depth') sp span) args' .none)) :
    Coupling Roster.outlook env env' (fun t => t) Calls (fun _ => True) (Gen.generate depth)
      (Gen.generate depth') (Indifferent env env') where
  toSteps := steps hp (hr'.trans hr.symm)
  loadElement := fun l _ _ _ _ span hl _ _ =>
    .of_solo (fun _ => .loadElement hl _ _ span) (fun _ => .loadElement hl _ _ span)
      fun _ _ => trivial
  storeElement := fun l _ _ _ _ _ _ span hl _ _ _ =>
    .of_solo (fun _ => .storeElement hl _ _ _ span) (fun _ => .storeElement hl _ _ _ span)
      fun _ _ => rfl
  arrayOfLiteral := fun {w _ l} elements span hl hn => by
    have hn := hn w le_rfl
    rw [List.map_id'' Node.retyped_self] at hn ⊢
    exact arrayOfLiteral hr hr' hlt elements span hl hn
  resolveArg := fun _ _ => by
    have h := steps hp (hr'.trans hr.symm)
    exact h.mono (h.resolveType _) fun _ _ _ _ ha => ⟨ha, trivial⟩
  request := fun span args args' hc _ hdecl hres _ => request span args args' hc hdecl hres

/-- Bodies, if nodes are generated alike. -/
theorem bodies (hp : env'.program = env.program) (hr : env.registry = .standard)
    (hr' : env'.registry = .standard) (hlt : depth < depth')
    (hn : ∀ n : Node, Coupling.Couples Roster.outlook (fun t => t) (Gen.generate depth)
      (Gen.generate depth') (Indifferent env env') n) (sp : Specialization) (span : Span) :
    Bodies env env' (Gen.generate depth) (Gen.generate depth') sp span := by
  intro body x
  have hc : Coupling Roster.outlook env env' (fun t => t) (fun _ => False) (fun _ => True)
      (Gen.generate depth) (Gen.generate depth') (Indifferent env env') :=
    coupling hp hr hr' hlt fun _ _ _ hc => hc.elim
  have h := hc.generateBody (w := x) (s := sp) rfl rfl rfl
    (List.map_id'' ResolvedParam.retyped_self _).symm (hn body) (fun _ _ d _ => hn d) span
  rwa [Node.retyped_self] at h

/-- The code of every node. -/
theorem nodes (hp : env'.program = env.program) (hr : env.registry = .standard)
    (hr' : env'.registry = .standard) (hs : env.program.SparesSupport) :
    ∀ {depth depth' : Nat}, depth < depth' → ∀ n : Node,
      Coupling.Couples Roster.outlook (fun t => t) (Gen.generate depth) (Gen.generate depth')
        (Indifferent env env') n
  | 0, _, _, _ => fun _ _ _ _ => Leads.of_error rfl (.inl rfl)
  | depth + 1, 0, hlt, _ => by omega
  | depth + 1, depth' + 1, hlt, n => by
    have hlt' := Nat.lt_of_succ_lt_succ hlt
    have hn := nodes hp hr hr' hs hlt'
    have hc : Coupling Roster.outlook env env' (fun t => t) (fun _ => True) (fun _ => True)
        (Gen.generate depth) (Gen.generate depth') (Indifferent env env') := by
      refine coupling hp hr hr' hlt' fun {w _ sp decl _ _} span args args' _ hdecl hres => ?_
      have hresolves := Specialization.resolve_ok hres
      have hname : ∀ decl, env.program.function? sp.func = some decl → sp.name = decl.name := by
        intro decl' hdecl'
        rw [hresolves.func_eq] at hdecl'
        cases hdecl.symm.trans hdecl'
        exact hresolves.name_eq
      refine .bind (V := fun _ _ _ => True) (fun s s' h => ?_) fun _ _ _ _ _ =>
        .of_solo (fun _ => .callFunction _ _ _) (fun _ => .callFunction _ _ _) fun _ _ => trivial
      refine (specialize hp hs hname (bodies hp hr hr' hlt' hn sp span) h.unit).mono ?_
      rintro _ _ t t' ⟨x, hx, ht, hf, hf', -⟩
      refine ⟨x, hx, ⟨ht, ?_, ?_⟩, trivial⟩
      · rw [hf, hf']
        exact h.frame
      · rw [hf, hf']
        exact hx h.current
    exact hc.generateNode (fun _ _ => trivial) fun c _ => hn c

end Indifferent

end Gen

/-! ## Compilation -/

namespace Compiler

open Gen

variable {env env' : Env} {depth depth' : Nat}

/-- Entry points are specialized and exported alike. -/
theorem entryWithin_concurs (hp : env'.program = env.program) (hr : env.registry = .standard)
    (hr' : env'.registry = .standard) (hs : env.program.SparesSupport) (hlt : depth < depth')
    {w : Roster} {s s' : GenState} (h : s.unit.Twin w s'.unit) (func : FuncId) :
    Concurs env env' s s' (entryWithin (fun _ => depth) func) (entryWithin (fun _ => depth') func)
      fun _ _ t t' => ∃ x : Roster, t.unit.Twin x t'.unit := by
  have hfunction (id : FuncId) : env'.program.function? id = env.program.function? id := by rw [hp]
  have hdecl' : Ends (functionDecl func) env' _ := ends_functionDecl func
  rw [hfunction] at hdecl'
  refine .read (ends_functionDecl _) hdecl' fun decl hdecl => ?_
  have hdecl : env.program.function? func = some decl := by
    split at hdecl
    · next d hd => cases hdecl; exact hd
    · cases hdecl
  split
  · exact .of_error rfl rfl
  · split
    · exact .of_error rfl rfl
    · next hbody =>
      refine .look (a := env.program) rfl rfl ?_
      rw [hp]
      refine .read (ends_ofExcept _) (ends_ofExcept _) fun sp hres => ?_
      have hresolves : sp.Resolves env.program func decl []
          (decl.params.filter fun q => !q.variadic).length decl.span := by
        split at hres
        · next hok =>
          cases hres
          exact Specialization.resolve_ok hok
        · cases hres
      have hfunc : env.program.function? sp.func = some decl := by rw [hresolves.func_eq, hdecl]
      have hname (decl' : FunctionDecl) (hdecl' : env.program.function? sp.func = some decl') :
          sp.name = decl'.name := by
        cases hfunc.symm.trans hdecl'
        exact hresolves.name_eq
      have hbodies := Indifferent.bodies hp hr hr' hlt
        (fun n => Indifferent.nodes hp hr hr' hs hlt n) sp decl.span
      refine .bind (Indifferent.specialize hp hs hname hbodies h) ?_
      rintro id id' t t' ⟨x, -, ht, -, -, hid⟩
      have hsome : decl.body.isSome = true := by
        rwa [Option.isSome_iff_ne_none, ne_eq, ← Option.isNone_iff_eq_none]
      exact .of_ok rfl rfl ⟨x, ht.addExport (hid decl hfunc hsome) decl.name⟩

/-- Compilers with different options, for the same program. -/
structure Concur (c c' : Compiler) : Prop where
  program : c'.env.program = c.env.program
  registry : c.env.registry = .standard
  registry' : c'.env.registry = .standard
  spares : c.env.program.SparesSupport
  unit : ∃ w : Roster, c.unit.Twin w c'.unit

variable {c c' : Compiler}

theorem compileEntryAt_concurs (h : c.Concur c') (hlt : depth < depth') (func : FuncId) :
    (∀ id d, c.compileEntryAt depth func = (.ok id, d) →
      ∃ id' d', c'.compileEntryAt depth' func = (.ok id', d') ∧ d.Concur d') ∧
    ∀ e d, c.compileEntryAt depth func = (.error e, d) →
      e = .exhausted ∨ ∃ d', c'.compileEntryAt depth' func = (.error e, d') := by
  obtain ⟨hp, hr, hr', hs, w, hw⟩ := h
  have hruns : Concurs c.env c'.env { unit := c.unit, frame := .outside }
      { unit := c'.unit, frame := .outside } _ _ _ :=
    entryWithin_concurs hp hr hr' hs hlt hw func
  unfold compileEntryAt
  constructor
  · intro id d hd
    split at hd
    · next id t hrun =>
      cases hd
      obtain ⟨id', t', hrun', x, hx⟩ := hruns.ok hrun
      refine ⟨id', { c' with unit := t'.unit }, ?_, hp, hr, hr', hs, x, hx⟩
      rw [show (entryWithin (fun _ => depth') func).run c'.env _ = _ from hrun']
    · cases hd
  · intro e d hd
    split at hd
    · cases hd
    · next e t hrun =>
      cases hd
      refine (hruns.error hrun).imp_right ?_
      rintro ⟨t', hrun'⟩
      refine ⟨{ c' with unit := t'.unit }, ?_⟩
      rw [show (entryWithin (fun _ => depth') func).run c'.env _ = _ from hrun']

/-- Lists of entry points are compiled alike. -/
theorem compileAllAt_concurs (h : c.Concur c') (hlt : depth < depth') (funcs : List FuncId) :
    (∀ d, c.compileAllAt depth funcs = .ok d →
      ∃ d', c'.compileAllAt depth' funcs = .ok d' ∧ d.Concur d') ∧
    ∀ e, c.compileAllAt depth funcs = .error e →
      e = .exhausted ∨ c'.compileAllAt depth' funcs = .error e := by
  induction funcs generalizing c c' with
  | nil =>
    refine ⟨fun d hd => ?_, fun e he => ?_⟩
    · cases hd
      exact ⟨c', rfl, h⟩
    · cases he
  | cons func rest ih =>
    unfold compileAllAt
    rw [h.program]
    cases c.env.program.function? func with
    | none =>
      refine ⟨fun d hd => ?_, fun e he => .inr he⟩
      cases hd
    | some decl =>
      dsimp only
      split
      · exact ih h
      · obtain ⟨hok, herror⟩ := compileEntryAt_concurs h hlt func
        generalize c.compileEntryAt depth func = r at hok herror
        obtain ⟨result, d⟩ := r
        cases result with
        | ok id =>
          obtain ⟨id', d', hd', hconcur⟩ := hok id d rfl
          rw [hd']
          exact ih hconcur
        | error e =>
          refine ⟨fun d hd => ?_, fun e' he => ?_⟩
          · cases hd
          · cases he
            refine (herror e d rfl).imp_right ?_
            rintro ⟨d', hd'⟩
            rw [hd']

end Compiler

/-- What other modules see of a function. -/
def Ssa.Function.interface (f : Function) : String × List Ty × Ty × Linkage :=
  (f.name, f.params, f.ret, f.linkage)

/-- Outputs that cannot be told apart from outside: the collector is needed by both or neither, as
many specializations have been generated and found again, the same symbols are exported under the
same names, and the definitions have the same interfaces, in the same order. -/
structure Output.Agrees (out out' : Output) : Prop where
  collector : out'.gcRequired = out.gcRequired
  generated : out'.generated = out.generated
  cacheHits : out'.cacheHits = out.cacheHits
  exports : out'.module.exports.toList.map (fun e => (e.1, out'.module.functionName e.2)) =
    out.module.exports.toList.map fun e => (e.1, out.module.functionName e.2)
  definitions : out'.module.definitions.map (fun d => d.2.interface) =
    out.module.definitions.map fun d => d.2.interface

/-- Compilations that end alike: with the same error, or with outputs that agree. -/
inductive Agree : Except Failure Output → Except Failure Output → Prop
  | ok {out out' : Output} (h : out.Agrees out') : Agree (.ok out) (.ok out')
  | error (e : Failure) : Agree (.error e) (.error e)

/-- What a program compiles to as soon as the recursion may be deep enough. -/
def Compiles (p : Program) (config : Config) (result : Except Failure Output) : Prop :=
  result ≠ .error .exhausted ∧ ∃ enough, ∀ depth, enough ≤ depth → compileAt depth p config = result

theorem Ssa.Function.Matches.interface {f f' : Function} (h : f.Matches f') :
    f'.interface = f.interface := by
  have hheading := h.heading
  simp only [Function.heading, Prod.mk.injEq] at hheading
  rw [Function.interface, hheading.1, hheading.2.1, hheading.2.2.1, h.linkage, Function.interface]

theorem Ssa.Module.map_interface (m : Module) : m.definitions.map (fun d => some d.2.interface) =
    m.definitionIds.map fun id => (m.function? id).map Function.interface := by
  unfold definitionIds
  rw [List.map_map]
  refine List.map_congr_left fun d hd => ?_
  rw [Function.comp_apply, (mem_definitions.mp hd).1]
  rfl

theorem UnitState.Twin.agrees {w : Roster} {u u' : UnitState} (h : u.Twin w u') :
    Output.Agrees ⟨u.module, u.gcRequired, u.generated, u.cacheHits⟩
      ⟨u'.module, u'.gcRequired, u'.generated, u'.cacheHits⟩ where
  collector := h.collector
  generated := h.generated
  cacheHits := h.cacheHits
  exports := by
    refine eq_of_forall₂ (List.forall₂_map_left_iff.mpr (List.forall₂_map_right_iff.mpr
      (h.exports.imp fun e e' he => ?_)))
    obtain ⟨f, f', hf, hf', hm⟩ := h.twins he.2
    rw [Module.functionName_of_function? hf, Module.functionName_of_function? hf', he.1,
      Function.name_of_heading hm.heading]
  definitions := by
    refine List.map_injective_iff.mpr (fun _ _ => Option.some.inj) ?_
    rw [List.map_map, List.map_map]
    show u'.module.definitions.map (fun d => some d.2.interface) =
      u.module.definitions.map fun d => some d.2.interface
    rw [Module.map_interface, Module.map_interface, h.left, h.right, List.map_map, List.map_map]
    refine List.map_congr_left fun p hp => ?_
    obtain ⟨f, f', hf, hf', hm⟩ := h.twins hp
    simp only [Function.comp_apply, hf, hf', Option.map_some, hm.interface]

/-- What is compiled at a depth is compiled in the same way at every greater one. -/
theorem compileAt_eq {depth depth' : Nat} (hle : depth ≤ depth') {p : Program} {config : Config}
    (hne : compileAt depth p config ≠ .error .exhausted) :
    compileAt depth' p config = compileAt depth p config := by
  have hall : (Compiler.new p config .standard).compileAllAt depth p.entryPoints ≠
      .error .exhausted := by
    intro he
    apply hne
    unfold compileAt
    rw [he]
    rfl
  unfold compileAt
  rw [Compiler.compileAllAt_eq hle hall]

theorem compile_eq_compileAt (p : Program) (config : Config) :
    compile p config = compileAt p.depthBound p config := by
  unfold compile compileAt
  rw [Compiler.compileAll_eq]
  rfl

theorem compileAt_agree {p : Program} (hp : p.SparesSupport) (config config' : Config)
    {depth depth' : Nat} (hlt : depth < depth') : compileAt depth p config = .error .exhausted ∨
      Agree (compileAt depth p config) (compileAt depth' p config') := by
  have hnew : (Compiler.new p config .standard).Concur (Compiler.new p config' .standard) :=
    ⟨rfl, rfl, rfl, hp, _, .empty _ _⟩
  obtain ⟨hok, herror⟩ := Compiler.compileAllAt_concurs hnew hlt p.entryPoints
  unfold compileAt
  cases hall : (Compiler.new p config .standard).compileAllAt depth p.entryPoints with
  | ok c =>
    obtain ⟨c', hc', hconcur⟩ := hok c hall
    obtain ⟨w, hw⟩ := hconcur.unit
    rw [hc']
    exact .inr (.ok hw.agrees)
  | error e =>
    rcases herror e hall with rfl | he
    · exact .inl rfl
    · rw [he]
      exact .inr (.error e)

/-- The options never change the outcome. If no external function has the name of a support function,
compilation under any two configurations ends with the same error, or with outputs that agree in all
but the code of the definitions. The second part is about the bounded recursion of `compile`, which
may run out under one configuration only if trees are nested as deep as the bound. -/
theorem compile_indifferent {p : Program} (hp : p.SparesSupport) (config config' : Config) :
    (∀ result, Compiles p config result →
      ∃ result', Compiles p config' result' ∧ Agree result result') ∧
    (compile p config = .error .exhausted ∨ compile p config' = .error .exhausted ∨
      Agree (compile p config) (compile p config')) := by
  constructor
  · rintro result ⟨hne, enough, henough⟩
    have hagree := compileAt_agree hp config config' (Nat.lt_succ_self enough)
    rw [henough enough le_rfl] at hagree
    have hagree := hagree.resolve_left hne
    have hne' : compileAt (enough + 1) p config' ≠ .error .exhausted := by
      intro he
      rw [he] at hagree
      cases hagree
      exact hne rfl
    exact ⟨_, ⟨hne', enough + 1, fun depth hle => compileAt_eq hle hne'⟩, hagree⟩
  · rw [compile_eq_compileAt, compile_eq_compileAt]
    by_cases hne' : compileAt p.depthBound p config' = .error .exhausted
    · exact .inr (.inl hne')
    · have hagree := compileAt_agree hp config config' (Nat.lt_succ_self p.depthBound)
      rw [compileAt_eq (Nat.le_succ _) hne'] at hagree
      exact hagree.imp_right .inr

/-- A program with an array literal and an access: `function main(): int { return [1, 2][0]; }`. -/
def indexingProgram : Program :=
  let node (t : StaticType) (form : Form Node) : Node := .mk ⟨0⟩ .dummy t form
  let literal (text : String) : Node := node .int (.numericLiteral text)
  let array : Node := node (.array .int) (.arrayLiteral [literal "1", literal "2"])
  { functions := #[
      { name := "main", ret := .int
        body := some (node .void (.block [node .void (.ret (some
          (node .int (.index array (literal "0")))))])) }]
    entryPoints := [⟨0⟩] }

/-- The same program through the support library and without it. -/
theorem compile_indifferent_indexing : indexingProgram.SparesSupport ∧
    Agree (compile indexingProgram {}) (compile indexingProgram
      { moduleName := "fast", access := .unchecked, literalBufferThreshold := 1 }) := by
  have hspares : indexingProgram.SparesSupport := by
    intro decl hdecl hnone
    cases List.mem_singleton.mp (Array.mem_toList_iff.mpr hdecl)
    cases hnone
  have hok : (compile indexingProgram {}).toBool = true ∧ (compile indexingProgram
      { moduleName := "fast", access := .unchecked, literalBufferThreshold := 1 }).toBool = true := by
    decide +kernel
  refine ⟨hspares, ?_⟩
  rcases (compile_indifferent hspares {}
    { moduleName := "fast", access := .unchecked, literalBufferThreshold := 1 }).2 with he | he | h
  · rw [he] at hok
    cases hok.1
  · rw [he] at hok
    cases hok.2
  · exact h

end TypedLowering
