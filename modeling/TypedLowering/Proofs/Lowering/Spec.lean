import Mathlib.Order.Basic
import TypedLowering.Lowering.Gen

/-!
Successful runs of code generation, and what can be said about them in terms of worlds. A world is a
state of code generation together with what is known about it; `w ≤ x` says that generation gets
from `w` to `x`. `Spec env w m Q` says that a successful run of `m` from `w` ends in a later world
with `Q`. The rules below follow the steps of a computation.
-/
namespace TypedLowering
set_option autoImplicit false

namespace Gen

variable {α β : Type} {env : Env} {s s' : GenState}

/-! ## Runs -/

theorem run_bind (m : Gen α) (f : α → Gen β) (env : Env) (s : GenState) :
    (m >>= f) env s = match m env s with
      | .ok a s₁ => f a env s₁
      | .error e s₁ => .error e s₁ := by
  show EStateM.bind (m env) (fun a => f a env) s = _
  unfold EStateM.bind
  cases m env s <;> rfl

theorem run_get (f : GenState → Gen β) (env : Env) (s : GenState) :
    (get >>= f) env s = f s env s := rfl

theorem run_read (f : Env → Gen β) (env : Env) (s : GenState) :
    (read >>= f) env s = f env env s := rfl

/-- A successful run of two steps is a successful run of each. -/
theorem bind_ok {m : Gen α} {f : α → Gen β} {b : β} (h : (m >>= f) env s = .ok b s') :
    ∃ a s₁, m env s = .ok a s₁ ∧ f a env s₁ = .ok b s' := by
  rw [run_bind] at h
  cases hm : m env s with
  | ok a s₁ =>
    rw [hm] at h
    exact ⟨a, s₁, rfl, h⟩
  | error e s₁ =>
    rw [hm] at h
    cases h

theorem pure_ok {a b : α} (h : (pure a : Gen α) env s = .ok b s') : b = a ∧ s' = s := by
  cases h
  exact ⟨rfl, rfl⟩

theorem throw_ok {e : Failure} {b : α} (h : (throw e : Gen α) env s = .ok b s') : False := by
  cases h

theorem fail_ok {cause : Cause} {span : Span} {b : α}
    (h : (fail cause span : Gen α) env s = .ok b s') : False := throw_ok h

theorem unsupported_ok {op type : String} {span : Span} {b : α}
    (h : (unsupported op type span : Gen α) env s = .ok b s') : False := throw_ok h

theorem internal_ok {message : String} {span : Span} {b : α}
    (h : (internal message span : Gen α) env s = .ok b s') : False := throw_ok h

theorem ofExcept_ok {x : Except LoweringError α} {b : α}
    (h : (ofExcept x : Gen α) env s = .ok b s') : x = .ok b ∧ s' = s := by
  cases x with
  | ok a =>
    cases h
    exact ⟨rfl, rfl⟩
  | error e => cases h

/-- Whether a run has a result. -/
def succeeds (m : Gen α) (env : Env) (s : GenState) : Bool :=
  match m env s with
  | .ok _ _ => true
  | .error _ _ => false

theorem exists_of_succeeds {m : Gen α} (h : succeeds m env s = true) :
    ∃ a s', m env s = .ok a s' := by
  unfold succeeds at h
  cases hm : m env s with
  | error e s' =>
    rw [hm] at h
    cases h
  | ok a s' => exact ⟨a, s', rfl⟩

end Gen

/-! ## Worlds -/

/-- States of code generation with what is known about them, in the order of generation. -/
class CodeWorld (W : Type) extends Preorder W where
  state : W → GenState

namespace Gen

variable {W : Type} [CodeWorld W] {α β : Type} {env : Env} {w : W}

/-- A successful run of `m` from `w` ends in a later world with `Q`. -/
def Spec (env : Env) (w : W) (m : Gen α) (Q : α → W → Prop) : Prop :=
  ∀ a s, m env (CodeWorld.state w) = .ok a s → ∃ x : W, CodeWorld.state x = s ∧ w ≤ x ∧ Q a x

namespace Spec

/-- A step that leaves the state as it is. -/
theorem here {m : Gen α} {Q : α → W → Prop}
    (h : ∀ a s, m env (CodeWorld.state w) = .ok a s → s = CodeWorld.state w ∧ Q a w) :
    Spec env w m Q := by
  intro a s hm
  obtain ⟨rfl, hq⟩ := h a s hm
  exact ⟨w, rfl, le_refl w, hq⟩

protected theorem pure {a : α} {Q : α → W → Prop} (h : Q a w) : Spec env w (pure a) Q := by
  refine here ?_
  intro b s hm
  obtain ⟨rfl, rfl⟩ := pure_ok hm
  exact ⟨rfl, h⟩

protected theorem bind {m : Gen α} {f : α → Gen β} {Q : α → W → Prop} {R : β → W → Prop}
    (hm : Spec env w m Q) (hf : ∀ a x, w ≤ x → Q a x → Spec env x (f a) R) :
    Spec env w (m >>= f) R := by
  intro b s h
  obtain ⟨a, s₁, h₁, h₂⟩ := bind_ok h
  obtain ⟨x, rfl, hwx, hq⟩ := hm a s₁ h₁
  obtain ⟨y, hy, hxy, hr⟩ := hf a x hwx hq b s h₂
  exact ⟨y, hy, hwx.trans hxy, hr⟩

/-- A first step that only looks something up. -/
theorem read {m : Gen α} {a : α} {f : α → Gen β} {R : β → W → Prop}
    (hm : m env (CodeWorld.state w) = .ok a (CodeWorld.state w)) (h : Spec env w (f a) R) :
    Spec env w (m >>= f) R := by
  intro b s hs
  obtain ⟨a', s', h₁, h₂⟩ := bind_ok hs
  rw [hm] at h₁
  cases h₁
  exact h b s h₂

theorem mono {m : Gen α} {Q R : α → W → Prop} (hm : Spec env w m Q)
    (h : ∀ a x, w ≤ x → Q a x → R a x) : Spec env w m R := by
  intro a s hs
  obtain ⟨x, hx, hwx, hq⟩ := hm a s hs
  exact ⟨x, hx, hwx, h a x hwx hq⟩

/-- The run itself may be kept. -/
theorem track {m : Gen α} {Q : α → W → Prop} (hm : Spec env w m Q) :
    Spec env w m fun a x => Q a x ∧ m env (CodeWorld.state w) = .ok a (CodeWorld.state x) := by
  intro a s hs
  obtain ⟨x, rfl, hwx, hq⟩ := hm a s hs
  exact ⟨x, rfl, hwx, hq, hs⟩

theorem throw {e : Failure} {Q : α → W → Prop} : Spec env w (throw e) Q :=
  fun _ _ h => (throw_ok h).elim

theorem fail {cause : Cause} {span : Span} {Q : α → W → Prop} : Spec env w (fail cause span) Q :=
  fun _ _ h => (fail_ok h).elim

theorem unsupported {op type : String} {span : Span} {Q : α → W → Prop} :
    Spec env w (unsupported op type span) Q :=
  fun _ _ h => (unsupported_ok h).elim

theorem internal {message : String} {span : Span} {Q : α → W → Prop} :
    Spec env w (internal message span) Q :=
  fun _ _ h => (internal_ok h).elim

theorem ofExcept {x : Except LoweringError α} {Q : α → W → Prop} (h : ∀ a, x = .ok a → Q a w) :
    Spec env w (ofExcept x) Q := by
  refine here ?_
  intro a s hm
  obtain ⟨hx, rfl⟩ := ofExcept_ok hm
  exact ⟨rfl, h a hx⟩

/-- The results for a list, when what holds of a result goes on to hold. -/
theorem mapM {f : α → Gen β} {P : β → W → Prop} (hP : ∀ b x y, x ≤ y → P b x → P b y) :
    ∀ {l : List α} {w : W}, (∀ a ∈ l, ∀ x, w ≤ x → Spec env x (f a) P) →
      Spec env w (l.mapM f) fun bs x => bs.length = l.length ∧ ∀ b ∈ bs, P b x
  | [], w, _ => Spec.pure ⟨rfl, by simp⟩
  | a :: l, w, h => by
    rw [List.mapM_cons]
    refine Spec.bind (h a List.mem_cons_self w (le_refl w)) fun b x hwx hb => ?_
    refine Spec.bind (mapM hP fun a' ha' y hxy => h a' (List.mem_cons_of_mem a ha') y
      (hwx.trans hxy)) fun bs y hxy hbs => ?_
    refine Spec.pure ⟨by simp [hbs.1], ?_⟩
    intro b' hb'
    rcases List.mem_cons.mp hb' with rfl | hb'
    · exact hP b' x y hxy hb
    · exact hbs.2 b' hb'

theorem foldlM {f : β → α → Gen β} {P : β → W → Prop} :
    ∀ {l : List α} {w : W} {b : β}, P b w →
      (∀ a ∈ l, ∀ b x, w ≤ x → P b x → Spec env x (f b a) P) → Spec env w (l.foldlM f b) P
  | [], w, b, hb, _ => Spec.pure hb
  | a :: l, w, b, hb, h => by
    rw [List.foldlM_cons]
    refine Spec.bind (h a List.mem_cons_self b w (le_refl w) hb) fun b' x hwx hb' => ?_
    exact foldlM hb' fun a' ha' b'' y hxy => h a' (List.mem_cons_of_mem a ha') b'' y (hwx.trans hxy)

end Spec

/-- A successful run of `m` from `x` ends in a world after `w` with `Q`. The steps between the two
need not be in order themselves. -/
def Onward (env : Env) (w x : W) (m : Gen α) (Q : α → W → Prop) : Prop :=
  ∀ a s, m env (CodeWorld.state x) = .ok a s → ∃ y : W, CodeWorld.state y = s ∧ w ≤ y ∧ Q a y

namespace Onward

variable {x : W}

theorem of_spec {m : Gen α} {Q : α → W → Prop} (hx : w ≤ x) (h : Spec env x m Q) :
    Onward env w x m fun a y => x ≤ y ∧ Q a y := by
  intro a s hm
  obtain ⟨y, hy, hxy, hq⟩ := h a s hm
  exact ⟨y, hy, hx.trans hxy, hxy, hq⟩

theorem to_spec {m : Gen α} {Q : α → W → Prop} (h : Onward env w w m Q) : Spec env w m Q := h

/-- Progress from a later world is progress from an earlier one. -/
theorem rebase {v : W} {m : Gen α} {Q : α → W → Prop} (h : v ≤ w) (hm : Onward env w x m Q) :
    Onward env v x m Q := by
  intro a s hs
  obtain ⟨y, hy, hwy, hq⟩ := hm a s hs
  exact ⟨y, hy, h.trans hwy, hq⟩

protected theorem pure {a : α} {Q : α → W → Prop} (hx : w ≤ x) (h : Q a x) :
    Onward env w x (pure a) Q := by
  intro b s hm
  obtain ⟨rfl, rfl⟩ := pure_ok hm
  exact ⟨x, rfl, hx, h⟩

protected theorem bind {m : Gen α} {f : α → Gen β} {Q : α → W → Prop} {R : β → W → Prop}
    (hm : Onward env w x m Q) (hf : ∀ a y, w ≤ y → Q a y → Onward env w y (f a) R) :
    Onward env w x (m >>= f) R := by
  intro b s h
  obtain ⟨a, s₁, h₁, h₂⟩ := bind_ok h
  obtain ⟨y, rfl, hwy, hq⟩ := hm a s₁ h₁
  exact hf a y hwy hq b s h₂

theorem read {m : Gen α} {a : α} {f : α → Gen β} {R : β → W → Prop}
    (hm : m env (CodeWorld.state x) = .ok a (CodeWorld.state x)) (h : Onward env w x (f a) R) :
    Onward env w x (m >>= f) R := by
  intro b s hs
  obtain ⟨a', s', h₁, h₂⟩ := bind_ok hs
  rw [hm] at h₁
  cases h₁
  exact h b s h₂

theorem bind_except {e : Except LoweringError α} {f : α → Gen β} {R : β → W → Prop}
    (hf : ∀ a, e = .ok a → Onward env w x (f a) R) : Onward env w x (ofExcept e >>= f) R := by
  intro b s h
  obtain ⟨a, s', h₁, h₂⟩ := bind_ok h
  obtain ⟨ha, rfl⟩ := ofExcept_ok h₁
  exact hf a ha b s h₂

end Onward

end Gen

end TypedLowering
