import TypedLowering.Proofs.Lowering.Outcome

/-!
Descriptors of classes as the program determines them. Building one adds a struct to the module;
everything else in it is the same in every module.
-/
namespace TypedLowering
set_option autoImplicit false
open Ssa

/-! ## What a descriptor says -/

/-- The fields of a class with their low-level types. -/
def ClassDecl.fieldInfos (decl : ClassDecl) : Except Failure (List FieldInfo) :=
  decl.fields.mapM fun f =>
    match f.type.lowered f.span with
    | .ok t => .ok ⟨f.name, f.type, t⟩
    | .error e => .error (.reported e)

/-- The methods of a class by name. -/
def Program.methodNames (p : Program) (decl : ClassDecl) : Except Failure (List (String × FuncId)) :=
  decl.methods.toList.mapM fun m =>
    match p.function? m with
    | some d => .ok (d.name, m)
    | none => .error .dangling

/-- The struct of the instances of a class. -/
def ClassDecl.struct (decl : ClassDecl) (fields : List FieldInfo) : StructDef :=
  ⟨"class." ++ decl.name, fields.map (·.lowered)⟩

/-- The descriptor of a class whose struct has a number. -/
def ClassDecl.descriptor (decl : ClassDecl) (cls : ClassId) (fields : List FieldInfo)
    (methods : List (String × FuncId)) (layout : StructId) : ClassDescriptor :=
  { cls, name := decl.name, layout, fields
    size := (decl.struct fields).size, align := (decl.struct fields).align
    methods := .ofList methods, constructor := decl.constructor }

/-- The state with one more struct. -/
def GenState.addStruct (s : GenState) (d : StructDef) : GenState :=
  { s with unit := { s.unit with module := (s.unit.module.addStruct d.name d.fields).2 } }

/-- The state with the descriptor of a class in the table. -/
def GenState.describe (s : GenState) (cls : ClassId) (d : ClassDescriptor) : GenState :=
  { s with unit := { s.unit with descriptors := s.unit.descriptors.insert cls d } }

/-! ## Runs -/

namespace Gen

variable {α β : Type} {env : Env} {s : GenState}

/-- The end of a run that does not change the state. -/
def Ends (m : Gen α) (env : Env) (x : Except Failure α) : Prop :=
  ∀ s, m env s = match x with
    | .ok a => .ok a s
    | .error e => .error e s

theorem Ends.mapM {f : α → Gen β} {g : α → Except Failure β} (h : ∀ a, Ends (f a) env (g a)) :
    ∀ l : List α, Ends (l.mapM f) env (l.mapM g)
  | [], s => rfl
  | a :: l, s => by
    rw [List.mapM_cons, List.mapM_cons, run_bind, h a s]
    cases g a with
    | error e => rfl
    | ok b =>
      show (l.mapM f >>= fun bs => Pure.pure (b :: bs)) env s = _
      rw [run_bind, Ends.mapM h l s]
      cases l.mapM g with
      | error e => rfl
      | ok bs => rfl

theorem ends_layout (t : StaticType) (span : Span) : Ends (layout t span) env
    (match t.lowered span with
      | .ok t => .ok t
      | .error e => .error (.reported e)) := by
  intro s
  unfold layout
  cases t.lowered span <;> rfl

theorem ends_functionDecl (id : FuncId) : Ends (functionDecl id) env
    (match env.program.function? id with
      | some d => .ok d
      | none => .error .dangling) := by
  intro s
  have hrun : functionDecl id env s = (match env.program.function? id with
    | some d => return d
    | none => throw .dangling : Gen FunctionDecl) env s := rfl
  rw [hrun]
  cases env.program.function? id <;> rfl

theorem ends_classDecl (cls : ClassId) : Ends (classDecl cls) env
    (match env.program.class? cls with
      | some d => .ok d
      | none => .error .dangling) := by
  intro s
  unfold classDecl
  rw [run_bind, show program env s = .ok env.program s from rfl]
  dsimp only
  cases env.program.class? cls <;> rfl

theorem ends_fieldInfos (decl : ClassDecl) :
    Ends (decl.fields.mapM fun f => do
      return (⟨f.name, f.type, ← layout f.type f.span⟩ : FieldInfo)) env decl.fieldInfos := by
  refine Ends.mapM (fun f => ?_) decl.fields
  intro s
  rw [run_bind, ends_layout f.type f.span s]
  cases f.type.lowered f.span <;> rfl

theorem ends_methodNames (decl : ClassDecl) :
    Ends (decl.methods.toList.mapM fun m => do return ((← functionDecl m).name, m)) env
      (env.program.methodNames decl) := by
  refine Ends.mapM (fun m => ?_) decl.methods.toList
  intro s
  rw [run_bind, ends_functionDecl m s]
  cases env.program.function? m <;> rfl

/-- How the descriptor of a class is built: a class that has no layout is refused at once, one with a
method that is no function after its struct has been added. -/
theorem buildDescriptor_run (cls : ClassId) : buildDescriptor cls env s =
    match env.program.class? cls with
    | none => .error .dangling s
    | some decl =>
      match decl.fieldInfos with
      | .error e => .error e s
      | .ok fields =>
        match env.program.methodNames decl with
        | .error e => .error e (s.addStruct (decl.struct fields))
        | .ok methods => .ok (decl.descriptor cls fields methods s.unit.module.nextStruct)
            (s.addStruct (decl.struct fields)) := by
  unfold buildDescriptor
  rw [run_bind, ends_classDecl cls s]
  cases env.program.class? cls with
  | none => rfl
  | some decl =>
    dsimp only
    show (Bind.bind (m := Gen) _ _) env s = _
    rw [run_bind, ends_fieldInfos decl s]
    cases decl.fieldInfos with
    | error e => rfl
    | ok fields =>
      dsimp only
      show (Bind.bind (m := Gen) _ _) env (s.addStruct (decl.struct fields)) = _
      rw [run_bind, ends_methodNames decl]
      cases env.program.methodNames decl <;> rfl

/-- What asking for the descriptor of a class does. -/
theorem descriptor_run (s : GenState) (cls : ClassId) : descriptor cls env s =
    match s.unit.descriptors.get? cls with
    | some d => .ok d s
    | none =>
      match buildDescriptor cls env s with
      | .error e t => .error e t
      | .ok d t => .ok d (t.describe cls d) := by
  have hrun : descriptor cls env s = (match s.unit.descriptors.get? cls with
    | some d => return d
    | none => do
      let d ← buildDescriptor cls
      modifyUnit fun u => { u with descriptors := u.descriptors.insert cls d }
      return d : Gen ClassDescriptor) env s := rfl
  rw [hrun]
  cases s.unit.descriptors.get? cls with
  | some d => rfl
  | none =>
    dsimp only
    rw [run_bind]
    cases buildDescriptor cls env s <;> rfl

theorem except_mapM_error {ε : Type} {P : ε → Prop} {f : α → Except ε β}
    (hf : ∀ a e, f a = .error e → P e) : ∀ {l : List α} {e : ε}, l.mapM f = .error e → P e
  | [], _, h => by cases h
  | a :: l, e, h => by
    rw [List.mapM_cons] at h
    cases hb : f a with
    | error e' =>
      rw [hb] at h
      cases h
      exact hf a e hb
    | ok b =>
      rw [hb] at h
      cases hbs : l.mapM f with
      | error e' =>
        rw [hbs] at h
        cases h
        exact except_mapM_error hf hbs
      | ok bs =>
        rw [hbs] at h
        cases h

/-- What asking for the descriptor of a class comes to. -/
theorem descriptor_leads {cls : ClassId} {Q : ClassDescriptor → GenState → Prop}
    {E : Failure → GenState → Prop}
    (known : ∀ d, s.unit.descriptors.get? cls = some d → Q d s)
    (refused : ∀ e, e ≠ .misplaced → e ≠ .exhausted → E e s)
    (abandoned : ∀ e d, e ≠ .misplaced → e ≠ .exhausted → E e (s.addStruct d))
    (built : ∀ decl fields methods, s.unit.descriptors.get? cls = none →
      env.program.class? cls = some decl → decl.fieldInfos = .ok fields →
      env.program.methodNames decl = .ok methods →
      let d := decl.descriptor cls fields methods s.unit.module.nextStruct
      Q d ((s.addStruct (decl.struct fields)).describe cls d)) :
    Leads env s (descriptor cls) Q E := by
  refine .read rfl ?_
  split
  · next d hd => exact .of_ok rfl (known d hd)
  · next hnone =>
    refine Leads.bind (Q := fun d s' => Q d (s'.describe cls d)) ?_
      fun d s' _ hq => .of_ok rfl hq
    unfold Leads
    rw [buildDescriptor_run]
    cases hdecl : env.program.class? cls with
    | none => exact refused _ (by simp) (by simp)
    | some decl =>
      dsimp only
      cases hfields : decl.fieldInfos with
      | error e =>
        obtain ⟨cause, rfl⟩ : ∃ cause, e = .reported cause := by
          refine except_mapM_error (P := fun e => ∃ cause, e = .reported cause) ?_ hfields
          intro f e he
          split at he
          · cases he
          · cases he
            exact ⟨_, rfl⟩
        exact refused (.reported cause) (by simp) (by simp)
      | ok fields =>
        dsimp only
        cases hmethods : env.program.methodNames decl with
        | error e =>
          obtain rfl : e = .dangling := by
            refine except_mapM_error (P := fun e => e = .dangling) ?_ hmethods
            intro m e he
            split at he
            · cases he
            · cases he
              rfl
          exact abandoned .dangling _ (by simp) (by simp)
        | ok methods => exact built decl fields methods hnone hdecl hfields hmethods

end Gen

end TypedLowering
