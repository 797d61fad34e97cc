import TypedLowering.Proofs.Lowering.Bound
import TypedLowering.Proofs.Order.Recording

/-!
Two runs in tandem. The first one drives, on its way to a unit that is given; the second one follows it
over the same tree in a unit of its own, in which other definitions may have been generated before. A
driving run may turn out not to lead to the given unit. That is known only when it is over, so there
is a second state at any time, but nothing is known of it once the first one has gone astray.
-/
namespace TypedLowering
set_option autoImplicit false
open Ssa

/-! ## Units -/

theorem Dict.mem_keys {κ α : Type} [DecidableEq κ] {d : Dict κ α} {key : κ} {a : α}
    (h : d.get? key = some a) : key ∈ d.bindings.map Prod.fst := by
  obtain ⟨b, hb, -⟩ := Option.map_eq_some_iff.mp h
  have hkey := List.find?_some hb
  rw [← of_decide_eq_true hkey]
  exact List.mem_map_of_mem (List.mem_of_find?_eq_some hb)

/-- A module in which functions of one name are one function. -/
def Ssa.Module.TellsApart (m : Module) : Prop :=
  ∀ {i j f g}, m.function? i = some f → m.function? j = some g → f.name = g.name → i = j

namespace UnitState

/-- The symbols that have definitions. -/
def defined (u : UnitState) : List String := u.specializations.bindings.map Prod.fst

/-- All functions of a unit are found in another one, up to their bodies, and of the definitions there
it lacks at most so many. -/
structure Within (u : UnitState) (r : Nat) (v : UnitState) : Prop where
  heading : ∀ {id f}, v.module.function? id = some f →
    ∃ i k, u.module.function? i = some k ∧ k.heading = f.heading
  collector : v.gcRequired = true → u.gcRequired = true
  lacks : v.lacks u.defined ≤ r

namespace Within

variable {u v v' : UnitState} {r r' : Nat}

theorem of_level (h : u.Within r v) (hv : v.Level v') : u.Within r v' where
  heading := fun hf => by
    obtain ⟨f, hf, hh⟩ := hv.functions hf
    obtain ⟨i, k, hk, hk'⟩ := h.heading hf
    exact ⟨i, k, hk, hk'.trans hh⟩
  collector := fun hc => h.collector (hv.collector ▸ hc)
  lacks := by
    unfold UnitState.lacks
    rw [hv.specializations]
    exact h.lacks

theorem mono (h : u.Within r v) (hr : r ≤ r') : u.Within r' v := { h with lacks := h.lacks.trans hr }

/-- Functions of the same name have the same heading. -/
theorem heading_eq (hu : u.module.TellsApart) (h : u.Within r v) {i j : FunctionId} {f g : Function}
    (hf : u.module.function? i = some f) (hg : v.module.function? j = some g) (hn : g.name = f.name) :
    f.heading = g.heading := by
  obtain ⟨i', k, hk, hh⟩ := h.heading hg
  cases hu hf hk (hn.symm.trans (Function.name_of_heading hh).symm)
  cases hf.symm.trans hk
  exact hh

/-- A definition of the unit is entered. -/
theorem started {s : GenState} (h : u.Within (r + 1) s.unit) {sp : Specialization}
    {symbol : String} {params : List Ty} {ret : Ty} {i : FunctionId} {f : Function}
    (hsymbol : u.specializations.get? symbol = some i) (hf : u.module.function? i = some f)
    (hh : f.heading = (symbol, params, ret, false, false))
    (hnone : s.unit.specializations.get? symbol = none) :
    u.Within r (s.started sp symbol params ret).unit where
  heading := fun {id g} hg => by
    by_cases hid : id = s.unit.module.nextFunction
    · rw [hid] at hg
      cases (s.unit.module.function?_addFunction_next _).symm.trans hg
      exact ⟨i, f, hf, hh⟩
    · exact h.heading ((s.unit.module.function?_addFunction_of_ne hid).symm.trans hg)
  collector := h.collector
  lacks := by
    have hlt : (s.started sp symbol params ret).unit.lacks u.defined < s.unit.lacks u.defined :=
      lacks_lt (Dict.mem_keys hsymbol) hnone rfl
    have hle := h.lacks
    omega

end Within

end UnitState

namespace Gen

variable {env : Env} {u : UnitState} {r : Nat} {s : GenState}

/-- What the given unit declares can be declared. -/
theorem declareExternal_within (hu : u.module.TellsApart) (h : s.unit.Regular env.program)
    (hw : u.Within r s.unit) {name : String} {params : List Ty} {ret : Ty} {variadic : Bool}
    {i : FunctionId} {k : Function} (hk : u.module.function? i = some k)
    (hh : k.heading = (name, params, ret, variadic, true)) (attrs : Attributes) (span : Span) :
    Leads env s (declareExternal name params ret attrs variadic span)
      (fun _ t => u.Within r t.unit) fun _ _ => False := by
  refine .read rfl ?_
  cases hl : s.unit.module.lookup name with
  | none =>
    obtain ⟨f, hd, hf, -⟩ := Module.declare_new params ret attrs variadic hl
    rw [hd]
    refine .of_ok rfl ⟨fun {id g} hg => ?_, hw.collector, hw.lacks⟩
    by_cases hid : id = s.unit.module.nextFunction
    · rw [hid] at hg
      cases (s.unit.module.function?_addFunction_next f).symm.trans hg
      exact ⟨i, k, hk, hh.trans hf.symm⟩
    · exact hw.heading ((s.unit.module.function?_addFunction_of_ne hid).symm.trans hg)
  | some id =>
    obtain ⟨f, hf, hname⟩ := h.orderly.tidy.symbols hl
    have hsame := hw.heading_eq hu hk hf (hname.trans (congrArg Prod.fst hh).symm)
    rw [Module.declare_known hl hf (hsame.symm.trans hh)]
    exact .of_ok rfl hw

end Gen

/-! ## Two states -/

/-- Structs of two units with the same content. -/
def GenState.SameStruct (s s' : GenState) (i j : StructId) : Prop :=
  ∃ d, s.unit.module.struct? i = some d ∧ s'.unit.module.struct? j = some d

/-- Functions of two units with the same name and result type. -/
def GenState.SameFunction (s s' : GenState) (i j : FunctionId) : Prop :=
  ∃ f f', s.unit.module.function? i = some f ∧ s'.unit.module.function? j = some f' ∧
    f'.name = f.name ∧ f'.ret = f.ret

/-- The functions under construction are alike. -/
def GenState.SameBody (s s' : GenState) : Prop :=
  ∃ f f', s.unit.module.function? s.frame.function = some f ∧
    s'.unit.module.function? s'.frame.function = some f' ∧
    f.Alike s.unit.module s'.unit.module f'

/-- What is known of the state of a run that has followed. -/
structure GenState.Together (p : Program) (u : UnitState) (r : Nat) (s s' : GenState) : Prop where
  regular : s'.unit.Regular p
  body : s.SameBody s'
  within : u.Within r s'.unit

/-- The states of two runs, one of a program `p` on its way to the unit `u`, the other of `p'`, with at
most `r` definitions to come. -/
structure Tandem (p p' : Program) (T : StaticType → Prop) (u : UnitState) (r : Nat) where
  driver : RegularWorld p (.passing T)
  follower : GenState
  framed : Frame.Alike (fun t => t) Eq
    (fun i j => driver.state.unit.Precedes u → driver.state.SameStruct follower i j)
    (fun _ => True) driver.state.frame follower.frame
  together : driver.state.unit.Precedes u → driver.state.Together p' u r follower

namespace Tandem

variable {p p' : Program} {T : StaticType → Prop} {u : UnitState} {r : Nat} {w x : Tandem p p' T u r}

/-- Whether the second run still has to follow. -/
def Alive (w : Tandem p p' T u r) : Prop := w.driver.state.unit.Precedes u

instance : Preorder (Tandem p p' T u r) where
  le w x := w.driver ≤ x.driver ∧
    (x.Alive → x.follower.frame.function = w.follower.frame.function ∧
      w.follower.unit.Precedes x.follower.unit)
  le_refl w := ⟨le_rfl, fun _ => ⟨rfl, .refl _⟩⟩
  le_trans w x y h h' := ⟨h.1.trans h'.1, fun hy =>
    have hx : x.Alive := h'.1.2.trans hy
    ⟨(h'.2 hy).1.trans (h.2 hx).1, (h.2 hx).2.trans (h'.2 hy).2⟩⟩

theorem Alive.earlier (h : x.Alive) (hx : w ≤ x) : w.Alive := hx.1.2.trans h

/-- The second run on its own. -/
theorem exists_follower (w : Tandem p p' T u r) (h : w.Alive) :
    ∃ y : RegularWorld p' (.passing fun _ => True), y.state = w.follower := by
  obtain ⟨hr, ⟨f, f', hf, hf', ha⟩, -⟩ := w.together h
  obtain ⟨k, hk, hb⟩ := w.driver.current
  cases hf.symm.trans hk
  refine ⟨⟨w.follower, hr, ⟨f', hf', ?_⟩, trivial, fun _ => trivial⟩, rfl⟩
  unfold Function.HasBlock
  rw [w.framed.block, ha.blocks]
  exact hb

def outlook (p p' : Program) (T : StaticType → Prop) (u : UnitState) (r : Nat) :
    Outlook (Tandem p p' T u r) where
  value := Eq
  attributes := Eq
  storage _ := True
  block w b := w.driver.HasBlock b
  declared w i j := w.driver.HasFunction i ∧ (w.Alive → w.driver.state.SameFunction w.follower i j)
  struct w i j := w.Alive → w.driver.state.SameStruct w.follower i j
  attributes_none := rfl
  storage_of := fun _ => trivial
  block_mono := fun hx h => h.later hx.1
  declared_mono := fun {w x i j} hx h => ⟨h.1.later hx.1, fun hl => by
    obtain ⟨f, f', hf, hf', hn, hr⟩ := h.2 (hl.earlier hx)
    obtain ⟨k, hk, hh, -⟩ := hx.1.2.embeds.function hf
    obtain ⟨k', hk', hh', -⟩ := (hx.2 hl).2.embeds.function hf'
    refine ⟨k, k', hk, hk', ?_, ?_⟩
    · rw [Function.name_of_heading hh', Function.name_of_heading hh, hn]
    · rw [Function.ret_of_heading hh', Function.ret_of_heading hh, hr]⟩
  struct_mono := fun hx h hl => by
    obtain ⟨d, hi, hj⟩ := h (hl.earlier hx)
    exact ⟨d, hx.1.2.embeds.struct hi, (hx.2 hl).2.embeds.struct hj⟩

/-! ## Later states -/

/-- What the second run comes to, in reply to a step of the first one. -/
structure Keeping (w : Tandem p p' T u r) (s t : GenState) : Prop where
  frame : t.frame = w.follower.frame
  precedes : w.follower.unit.Precedes t.unit
  together : s.Together p' u r t

/-- A step of the first run, with the reply of the second one if it is still asked for. -/
theorem exists_step {y : RegularWorld p (.passing T)} {P : GenState → Prop}
    (hy : w.driver ≤ y) (hframe : y.state.frame = w.driver.state.frame)
    (h : y.state.unit.Precedes u → ∃ t, w.Keeping y.state t ∧ P t) :
    ∃ x : Tandem p p' T u r, w ≤ x ∧ x.driver = y ∧ (x.Alive → P x.follower) := by
  by_cases hl : y.state.unit.Precedes u
  · obtain ⟨t, ht, hP⟩ := h hl
    refine ⟨⟨y, t, ?_, fun _ => ht.together⟩, ⟨hy, fun _ => ⟨congrArg Frame.function ht.frame,
      ht.precedes⟩⟩, rfl, fun _ => hP⟩
    rw [hframe, ht.frame]
    refine w.framed.mono fun i j hij _ => ?_
    obtain ⟨d, hi, hj⟩ := hij (hy.2.trans hl)
    exact ⟨d, hy.2.embeds.struct hi, ht.precedes.embeds.struct hj⟩
  · refine ⟨⟨y, w.follower, ?_, fun h => (hl h).elim⟩, ⟨hy, fun h => (hl h).elim⟩, rfl,
      fun h => (hl h).elim⟩
    rw [hframe]
    exact w.framed.mono fun i j _ h => (hl h).elim

/-- A step of both runs that requests and declares nothing. -/
theorem exists_level {y : RegularWorld p (.passing T)} {t : GenState}
    (hy : w.driver ≤ y) (hframe : y.state.frame = w.driver.state.frame)
    (h : w.Alive → t.frame = w.follower.frame ∧ t.unit.Regular p' ∧
      w.follower.unit.Level t.unit ∧ y.state.SameBody t) :
    ∃ x : Tandem p p' T u r, w ≤ x ∧ x.driver = y ∧ (x.Alive → x.follower = t) := by
  refine exists_step (P := (· = t)) hy hframe fun hl => ?_
  have hw : w.Alive := hy.2.trans hl
  obtain ⟨hf, hr, hlevel, hbody⟩ := h hw
  exact ⟨t, ⟨hf, hlevel.precedes, hr, hbody, (w.together hw).within.of_level hlevel⟩, rfl⟩

/-- The two runs at another place in their functions. -/
theorem exists_framed (g g' : Frame → Frame) {y : RegularWorld p (.passing T)}
    (hy : w.driver ≤ y) (hstate : y.state = { w.driver.state with frame := g w.driver.state.frame })
    (hg : (g w.driver.state.frame).function = w.driver.state.frame.function)
    (hg' : (g' w.follower.frame).function = w.follower.frame.function)
    (h : (outlook p p' T u r).frame (fun t => t) w (g w.driver.state.frame) (g' w.follower.frame)) :
    ∃ x : Tandem p p' T u r, w ≤ x ∧ x.driver = y ∧
      x.follower = { w.follower with frame := g' w.follower.frame } := by
  refine ⟨⟨y, { w.follower with frame := g' w.follower.frame }, ?_, fun hl => ?_⟩,
    ⟨hy, fun _ => ⟨hg', .refl _⟩⟩, rfl, rfl⟩
  · rw [hstate]
    exact h
  · rw [hstate] at hl ⊢
    have ht := w.together hl
    refine ⟨ht.regular, ?_, ht.within⟩
    unfold GenState.SameBody
    dsimp only
    rw [hg, hg']
    exact ht.body

theorem Alive.orderly (h : w.Alive) {g : Function → Function}
    (hg : Function.Edit w.follower.frame.block g) : (w.follower.mapFunction g).unit.Orderly := by
  obtain ⟨y, hy⟩ := w.exists_follower h
  rw [← hy] at hg ⊢
  obtain ⟨z, hz, -⟩ := y.exists_edited hg
  rw [← hz]
  exact z.regular.orderly

/-- What is the same in functions that are alike. -/
theorem query_eq (w : Tandem p p' T u r) (h : w.Alive) {α : Type} {default : α} {q q' : Function → α}
    (hq : ∀ {f f' : Function} {m m' : Module}, f.Alike m m' f' → q' f' = q f) :
    w.follower.query default q' = w.driver.state.query default q := by
  obtain ⟨-, ⟨f, f', hf, hf', ha⟩, -⟩ := w.together h
  rw [w.follower.query_eq hf', w.driver.state.query_eq hf, hq ha]

end Tandem

namespace Gen

variable {α β : Type} {env env' : Env} {T : StaticType → Prop} {u : UnitState} {r : Nat}
  {w x : Tandem env.program env'.program T u r}

/-- Every run of `m` in the first state gets to a later pair of states; while that is alive, the second
run has followed with a result that has `V`. -/
def Drives (env env' : Env) {T : StaticType → Prop} {u : UnitState} {r : Nat} (α : Type)
    (w : Tandem env.program env'.program T u r)
    (V : Tandem env.program env'.program T u r → α → α → Prop) (m m' : Gen α) : Prop :=
  Leads env w.driver.state m
    (fun a t => ∃ x : Tandem env.program env'.program T u r, w ≤ x ∧ x.driver.state = t ∧
      ∃ b, V x a b ∧ (x.Alive → m' env' w.follower = .ok b x.follower))
    fun _ t => w.driver.state.unit.Precedes t.unit

namespace Drives

variable {V : Tandem env.program env'.program T u r → α → α → Prop}
  {U : Tandem env.program env'.program T u r → β → β → Prop} {m m' : Gen α} {f f' : α → Gen β}

/-- A step that looks something up. -/
theorem look {a b : α} (hm : m env w.driver.state = .ok a w.driver.state)
    (hm' : w.Alive → m' env' w.follower = .ok b w.follower) (hV : V w a b) :
    Drives env env' α w V m m' :=
  .of_ok hm ⟨w, le_rfl, rfl, b, hV, hm'⟩

protected theorem pure {a b : α} (hV : V w a b) : Drives env env' α w V (pure a) (pure b) :=
  look rfl (fun _ => rfl) hV

protected theorem throw {e : Failure} : Drives env env' α w V (throw e) (throw e) :=
  .of_error rfl (.refl _)

protected theorem bind (hm : Drives env env' α w V m m')
    (hf : ∀ x a b, w ≤ x → V x a b → Drives env env' β x U (f a) (f' b)) :
    Drives env env' β w U (m >>= f) (m' >>= f') := by
  refine Leads.bind hm ?_
  rintro a _ - ⟨x, hwx, rfl, b, hV, hb⟩
  refine Leads.mono (hf x a b hwx hV) ?_ fun e t he => hwx.1.2.trans he
  rintro c _ ⟨y, hxy, rfl, d, hU, hd⟩
  refine ⟨y, hwx.trans hxy, rfl, d, hU, fun hy => ?_⟩
  rw [run_bind, hb (hy.earlier hxy)]
  exact hd hy

/-- A step of both runs that requests and declares nothing. -/
theorem level {a b : α} {y : RegularWorld env.program (.passing T)} {t : GenState}
    (hm : m env w.driver.state = .ok a y.state) (hm' : w.Alive → m' env' w.follower = .ok b t)
    (hy : w.driver ≤ y) (hframe : y.state.frame = w.driver.state.frame)
    (h : w.Alive → t.frame = w.follower.frame ∧ t.unit.Regular env'.program ∧
      w.follower.unit.Level t.unit ∧ y.state.SameBody t)
    (hV : ∀ x, w ≤ x → x.driver = y → (x.Alive → x.follower = t) → V x a b) :
    Drives env env' α w V m m' := by
  obtain ⟨x, hwx, hx, ht⟩ := Tandem.exists_level hy hframe h
  refine .of_ok hm ⟨x, hwx, congrArg RegularWorld.state hx, b, hV x hwx hx ht, fun hl => ?_⟩
  rw [ht hl]
  exact hm' (hl.earlier hwx)

/-! ## Steps on the current functions -/

/-- Changes of the current functions after which they are still alike. -/
theorem edit {a b : α} {g g' : Function → Function}
    (hm : m env w.driver.state = .ok a (w.driver.state.mapFunction g))
    (hm' : w.Alive → m' env' w.follower = .ok b (w.follower.mapFunction g'))
    (hg' : Function.Preserving g') (hg : Function.Preserving g)
    (hd : ∃ y : RegularWorld env.program (.passing T),
      CodeWorld.state y = w.driver.state.mapFunction g ∧ w.driver ≤ y)
    (hf : w.Alive → (w.follower.mapFunction g').unit.Orderly)
    (ha : w.Alive → ∀ f f', f.Alike w.driver.state.unit.module w.follower.unit.module f' →
      (g f).Alike w.driver.state.unit.module w.follower.unit.module (g' f'))
    (hV : ∀ x, w ≤ x → x.driver.state = w.driver.state.mapFunction g → V x a b) :
    Drives env env' α w V m m' := by
  obtain ⟨y, hy, hwy⟩ := hd
  have hy : y.state = w.driver.state.mapFunction g := hy
  refine level (t := w.follower.mapFunction g') (by rw [hm, hy]) hm' hwy (by rw [hy]; rfl) ?_ ?_
  · intro hl
    obtain ⟨hr, ⟨k, k', hk, hk', hkk⟩, -⟩ := w.together hl
    obtain ⟨z, hz⟩ := w.exists_follower hl
    have hcurrent := z.current
    rw [hz] at hcurrent
    refine ⟨rfl, hr.mapFunction hg' (hf hl) hcurrent, .mapFunction _ hg', g k, g' k', ?_, ?_, ?_⟩
    · rw [hy]
      exact w.driver.state.function?_mapFunction hk g
    · exact w.follower.function?_mapFunction hk' g'
    · rw [hy]
      exact (ha hl k k' hkk).mono (.modifyFunction _ _ hg) (.modifyFunction _ _ hg')
  · rintro x hwx rfl -
    exact hV x hwx hy

theorem requireOpen : Drives env env' Unit w (fun _ => Eq) Gen.requireOpen Gen.requireOpen := by
  have same (hl : w.Alive) :
      (w.follower.query false fun f => f.isTerminated w.follower.frame.block) =
        w.driver.state.query false fun f => f.isTerminated w.driver.state.frame.block :=
    w.query_eq hl fun ha => by rw [w.framed.block, ha.isTerminated_eq]
  have run (env : Env) (s : GenState) : Gen.requireOpen env s =
      if (s.query false fun f => f.isTerminated s.frame.block) = true then .error Failure.misplaced s
      else .ok () s := by
    unfold Gen.requireOpen
    rw [run_bind]
    show (if _ then (throw Failure.misplaced : Gen Unit) else pure ()) env s = _
    split <;> rfl
  by_cases hopen : (w.driver.state.query false fun f => f.isTerminated w.driver.state.frame.block) = true
  · exact .of_error ((run _ _).trans (if_pos hopen)) (.refl _)
  · refine look ((run _ _).trans (if_neg hopen)) (fun hl => (run _ _).trans (if_neg ?_)) rfl
    rwa [same hl]

/-- Instructions that do the same. -/
theorem emit {d d' : Definition}
    (hd : ∀ x : Tandem env.program env'.program T u r, w ≤ x →
      ∃ y : RegularWorld env.program (.passing T), CodeWorld.state y =
        x.driver.state.mapFunction (fun f => f.append x.driver.state.frame.block d) ∧ x.driver ≤ y)
    (hf : ∀ x : Tandem env.program env'.program T u r, w ≤ x → x.Alive →
      (x.follower.mapFunction fun f => f.append x.follower.frame.block d').unit.Orderly)
    (ha : ∀ x : Tandem env.program env'.program T u r, w ≤ x → x.Alive →
      d.Alike x.driver.state.unit.module x.follower.unit.module d') :
    Drives env env' ValueId w (fun _ => Eq) (Gen.emit d) (Gen.emit d') := by
  refine Drives.bind requireOpen fun x _ _ hwx _ => ?_
  refine edit (a := x.driver.state.query .absent Function.nextValue)
    (b := x.driver.state.query .absent Function.nextValue) rfl (fun hl => ?_)
    (Function.preserving_append _ d') (Function.preserving_append _ d) (hd x hwx) (hf x hwx)
    (fun hl f f' hff => ?_) fun _ _ _ => rfl
  · have hvalue : x.follower.query .absent Function.nextValue =
        x.driver.state.query .absent Function.nextValue := x.query_eq hl fun ha => ha.nextValue_eq
    rw [← hvalue]
    rfl
  · rw [x.framed.block]
    exact hff.append (ha x hwx hl) _

/-- Changes of the current functions that call nothing. -/
theorem edited {a b : α} {g g' : Function → Function}
    (hm : m env w.driver.state = .ok a (w.driver.state.mapFunction g))
    (hm' : w.Alive → m' env' w.follower = .ok b (w.follower.mapFunction g'))
    (hg : Function.Edit w.driver.state.frame.block g) (hg' : Function.Edit w.follower.frame.block g')
    (ha : w.Alive → ∀ f f', f.Alike w.driver.state.unit.module w.follower.unit.module f' →
      (g f).Alike w.driver.state.unit.module w.follower.unit.module (g' f'))
    (hV : ∀ x, w ≤ x → x.driver.state = w.driver.state.mapFunction g → V x a b) :
    Drives env env' α w V m m' :=
  edit hm hm' hg'.preserving hg.preserving (w.driver.exists_edited hg) (fun hl => hl.orderly hg') ha hV

/-- Instructions that call nothing. -/
theorem emit_plain {d d' : Definition} (hd : d.op.callee? = none) (hd' : d'.op.callee? = none)
    (ha : ∀ x : Tandem env.program env'.program T u r, w ≤ x → x.Alive →
      d.Alike x.driver.state.unit.module x.follower.unit.module d') :
    Drives env env' ValueId w (fun _ => Eq) (Gen.emit d) (Gen.emit d') :=
  emit (fun x _ => x.driver.exists_edited (.append hd)) (fun _ _ hl => hl.orderly (.append hd')) ha

/-- The same instruction, which refers to nothing outside of its function. -/
theorem emit_local {d : Definition} (hd : d.op.isLocal = true) :
    Drives env env' ValueId w (fun _ => Eq) (Gen.emit d) (Gen.emit d) := by
  have hcall : d.op.callee? = none := by
    cases hop : d.op with
    | call callee args attrs =>
      rw [hop] at hd
      cases hd
    | _ => rfl
  exact emit_plain hcall hcall fun _ _ _ => ⟨.same hd, rfl⟩

/-- What is computed from the current functions. -/
theorem queried {default : α} {q : Function → α} {f f' : α → Gen β}
    (hq : ∀ {f f' : Function} {m m' : Module}, f.Alike m m' f' → q f' = q f)
    (hf : ∀ a, Drives env env' β w U (f a) (f' a)) :
    Drives env env' β w U ((do return (← get).query default q) >>= f)
      ((do return (← get).query default q) >>= f') := by
  refine Drives.bind (V := fun x a b => x = w ∧ a = b) (look (a := w.driver.state.query default q)
    (b := w.driver.state.query default q) rfl (fun hl => ?_) ⟨rfl, rfl⟩) ?_
  · rw [← w.query_eq hl hq]
    rfl
  · rintro x a _ - ⟨rfl, rfl⟩
    exact hf a

theorem emitBinary (op : BinOp) (l r' : ValueId) :
    Drives env env' ValueId w (fun _ => Eq) (Gen.emitBinary op l r') (Gen.emitBinary op l r') :=
  queried (fun ha => ha.valueType_eq l) fun _ => emit_local rfl

theorem emitSelect (c a b : ValueId) :
    Drives env env' ValueId w (fun _ => Eq) (Gen.emitSelect c a b) (Gen.emitSelect c a b) :=
  queried (fun ha => ha.valueType_eq a) fun _ => emit_local rfl

theorem fieldPtr (base : ValueId) {i j : StructId} (index : Nat)
    (hij : (Tandem.outlook env.program env'.program T u r).struct w i j) :
    Drives env env' ValueId w (fun _ => Eq) (Gen.emit (.fieldPtr base i index))
      (Gen.emit (.fieldPtr base j index)) := by
  refine emit_plain rfl rfl fun x hx hl => ?_
  obtain ⟨d, hi, hj⟩ := (Tandem.outlook _ _ T u r).struct_mono hx hij hl
  exact ⟨.fieldPtr base index hi hj, rfl⟩

theorem emitSlot (t : Ty) : Drives env env' ValueId w (fun _ => Eq) (Gen.emitSlot t) (Gen.emitSlot t) := by
  refine edited (a := w.driver.state.query .absent Function.nextValue)
    (b := w.driver.state.query .absent Function.nextValue) rfl (fun hl => ?_) (.addSlot t)
    (.addSlot t) (fun _ _ _ ha => ha.addSlot t) fun _ _ _ => rfl
  rw [← w.query_eq hl fun ha => ha.nextValue_eq]
  rfl

theorem terminate (t : Terminator) :
    Drives env env' Unit w (fun _ => Eq) (Gen.terminate t) (Gen.terminate t) := by
  refine Drives.bind requireOpen fun x _ _ _ _ => ?_
  refine edited rfl (fun _ => rfl) (.terminate t) (.terminate t) (fun _ f f' ha => ?_) fun _ _ _ => rfl
  rw [x.framed.block]
  exact ha.terminate _ t

theorem appendBlock (word : String) : Drives env env' BlockId w
    (fun x b b' => b = b' ∧ (Tandem.outlook env.program env'.program T u r).block x b)
    (Gen.appendBlock word) (Gen.appendBlock word) := by
  obtain ⟨f, hf, -⟩ := w.driver.current
  have hquery : w.driver.state.query .absent Function.nextBlock = f.nextBlock :=
    w.driver.state.query_eq hf
  refine edited (a := f.nextBlock) (b := f.nextBlock) ?_ (fun hl => ?_) (.addBlock word)
    (.addBlock word) (fun _ _ _ ha => ha.addBlock word) fun x _ hx => ⟨rfl, f.addBlock word, ?_, ?_⟩
  · rw [← hquery]
    rfl
  · rw [← hquery, ← w.query_eq hl fun ha => ha.nextBlock_eq]
    rfl
  · rw [hx]
    exact w.driver.state.function?_mapFunction hf _
  · exact (Function.hasBlock_addBlock word).mpr (.inr rfl)

end Drives

end Gen

end TypedLowering
