import Mathlib.Data.List.Nodup
import TypedLowering.Diagnostic.Queue

/-!
Queues of diagnostics over whole runs. Between any two operations the counter is the number of
errors held, the errors held are within the limit and, if duplicates are dropped, no two diagnostics
held are equal. Flushing sorts by location without exchanging diagnostics at the same place, and
leaves a queue that is like a fresh one.

Main definitions:

- `DiagnosticQueue.Operation`, `DiagnosticQueue.run`: what is done with a queue;
- `DiagnosticQueue.Consistent`: what holds between operations;
- `Diagnostic.NotAfter`: the order of location.

Main result: `DiagnosticQueue.run_keeps_contract`.
-/
namespace TypedLowering
set_option autoImplicit false

/-- In the order of location one diagnostic does not come after another: what has no primary label
stands behind whatever starts before the last location. -/
def Diagnostic.NotAfter (a b : Diagnostic) : Prop :=
  match a.primarySpan, b.primarySpan with
  | some s, some t => s.start ≤ t.start
  | some s, none => s.start ≤ 0xFFFFFFFF
  | none, some t => 0xFFFFFFFF ≤ t.start
  | none, none => True

namespace DiagnosticQueue

/-- What is done with a queue. -/
inductive Operation where
  /-- A diagnostic is added, and the answer is looked at. -/
  | add (d : Diagnostic)
  /-- A diagnostic is reported. -/
  | emit (d : Diagnostic)
  | flush

/-- The queue after an operation. -/
def perform (q : DiagnosticQueue) : Operation → DiagnosticQueue
  | .add d | .emit d => (q.add d).2
  | .flush => q.flush.2

/-- The queue after operations one after the other. -/
def run (q : DiagnosticQueue) (ops : List Operation) : DiagnosticQueue := ops.foldl perform q

/-- The diagnostics held, in the order of report. -/
def held (q : DiagnosticQueue) : List Diagnostic := q.queued.toList

/-- The number of errors among the diagnostics held. -/
def heldErrors (q : DiagnosticQueue) : Nat := q.held.countP fun d => d.isError

/-- What holds between operations. -/
structure Consistent (q : DiagnosticQueue) : Prop where
  counted : q.errorCount = q.heldErrors
  limited : 0 < q.config.errorLimit → q.heldErrors ≤ q.config.errorLimit
  distinct : q.config.deduplicate = true → q.held.Nodup

variable {q : DiagnosticQueue} {d : Diagnostic}

/-! ## Adding -/

theorem add_of_accepts (h : q.accepts d = true) :
    (q.add d).1 = true ∧ (q.add d).2.held = q.held ++ [d] ∧ (q.add d).2.config = q.config ∧
      (q.add d).2.errorCount = q.errorCount + if d.isError then 1 else 0 := by
  rw [add, if_pos h]
  refine ⟨rfl, by simp [held], rfl, ?_⟩
  dsimp only
  split <;> rfl

theorem add_of_refuses (h : q.accepts d = false) : q.add d = (false, q) := by
  rw [add, if_neg (by simp [h])]

/-- What a queue refuses: an error when as many as allowed are held, and what it holds already. -/
theorem accepts_eq_false_iff : q.accepts d = false ↔
    (d.isError = true ∧ 0 < q.config.errorLimit ∧ q.config.errorLimit ≤ q.errorCount) ∨
      (q.config.deduplicate = true ∧ d ∈ q.held) := by
  simp only [accepts, limitReached, held, Bool.and_eq_false_iff, Bool.not_eq_false',
    Bool.and_eq_true, decide_eq_true_eq, Array.contains_iff_mem, Array.mem_toList_iff]

theorem heldErrors_add_of_accepts (h : q.accepts d = true) :
    (q.add d).2.heldErrors = q.heldErrors + if d.isError then 1 else 0 := by
  rw [heldErrors, (add_of_accepts h).2.1, List.countP_append, List.countP_singleton, heldErrors]

theorem add_fst : (q.add d).1 = q.accepts d := by
  cases h : q.accepts d with
  | true => exact (add_of_accepts h).1
  | false => rw [add_of_refuses h]

/-- A diagnostic was taken exactly if the queue grew by it. -/
theorem add_fst_eq_true_iff : (q.add d).1 = true ↔ (q.add d).2.held = q.held ++ [d] := by
  constructor
  · intro h
    exact (add_of_accepts (add_fst.symm.trans h)).2.1
  · intro h
    cases haccepts : q.accepts d with
    | true => exact (add_of_accepts haccepts).1
    | false =>
      rw [add_of_refuses haccepts] at h
      have hlength := congrArg List.length h
      simp at hlength

/-! ## Flushing -/

section Sorting

variable {α : Type} (key : α → Nat)

theorem le_key_trans (a b c : α) (hab : decide (key a ≤ key b) = true)
    (hbc : decide (key b ≤ key c) = true) : decide (key a ≤ key c) = true := by
  simp only [decide_eq_true_eq] at hab hbc ⊢
  omega

theorem le_key_total (a b : α) : (decide (key a ≤ key b) || decide (key b ≤ key a)) = true := by
  simp only [Bool.or_eq_true, decide_eq_true_eq]
  omega

theorem pairwise_mergeSort_key (l : List α) :
    (l.mergeSort fun a b => key a ≤ key b).Pairwise fun a b => key a ≤ key b :=
  (List.pairwise_mergeSort (le_key_trans key) (le_key_total key) l).imp fun h => of_decide_eq_true h

/-- What is sorted by a key keeps the order of what has the same key. -/
theorem filter_mergeSort (l : List α) (k : Nat) :
    (l.mergeSort fun a b => key a ≤ key b).filter (fun a => key a = k) =
      l.filter fun a => key a = k := by
  have hperm := (List.mergeSort_perm l fun a b => decide (key a ≤ key b)).filter fun a => key a = k
  -- what has one key is in order already, so that sorting keeps it together in this order
  have hsorted : (l.filter fun a => key a = k).Pairwise fun a b => decide (key a ≤ key b) = true := by
    refine List.pairwise_of_forall_mem_list fun a ha b hb => ?_
    have ha' := (List.mem_filter.mp ha).2
    have hb' := (List.mem_filter.mp hb).2
    simp only [decide_eq_true_eq] at ha' hb' ⊢
    omega
  have hsub := List.sublist_mergeSort (le_key_trans key) (le_key_total key) hsorted
    List.filter_sublist
  have hfilter := hsub.filter fun a => decide (key a = k)
  rw [List.filter_filter] at hfilter
  simp only [Bool.and_self] at hfilter
  exact (hfilter.eq_of_length hperm.length_eq.symm).symm

end Sorting

theorem notAfter_of_sortKey_le {a b : Diagnostic} (h : sortKey a ≤ sortKey b) : a.NotAfter b := by
  unfold sortKey at h
  unfold Diagnostic.NotAfter
  cases ha : a.primarySpan with
  | none =>
    cases hb : b.primarySpan with
    | none => trivial
    | some t =>
      rw [ha, hb] at h
      exact h
  | some s =>
    rw [ha] at h
    cases hb : b.primarySpan with
    | none =>
      rw [hb] at h
      exact h
    | some t =>
      rw [hb] at h
      exact h

theorem flush_perm : q.flush.1.Perm q.held := List.mergeSort_perm ..

theorem flush_sorted : q.flush.1.Pairwise Diagnostic.NotAfter :=
  (pairwise_mergeSort_key sortKey q.held).imp fun h => notAfter_of_sortKey_le h

theorem flush_stable (k : Nat) :
    q.flush.1.filter (fun d => sortKey d = k) = q.held.filter fun d => sortKey d = k :=
  filter_mergeSort sortKey q.held k

theorem flush_snd : q.flush.2 = ofConfig q.config := rfl

/-! ## Runs -/

namespace Consistent

theorem ofConfig (config : QueueConfig) : (ofConfig config).Consistent where
  counted := rfl
  limited := fun _ => Nat.zero_le _
  distinct := fun _ => List.nodup_nil

theorem add (h : q.Consistent) (d : Diagnostic) : (q.add d).2.Consistent := by
  cases haccepts : q.accepts d with
  | false => rwa [add_of_refuses haccepts]
  | true =>
    obtain ⟨-, hheld, hconfig, hcount⟩ := add_of_accepts haccepts
    have herrors := heldErrors_add_of_accepts haccepts
    have hno : ¬ q.accepts d = false := by simp [haccepts]
    rw [accepts_eq_false_iff, not_or] at hno
    refine ⟨?_, ?_, ?_⟩
    · rw [hcount, herrors, h.counted]
    · intro hlimit
      rw [hconfig] at hlimit ⊢
      have hle := h.limited hlimit
      rw [herrors]
      split
      · next herror =>
        -- an error is taken only while there are fewer than the limit
        have hroom : ¬ q.config.errorLimit ≤ q.errorCount := fun hfull =>
          hno.1 ⟨herror, hlimit, hfull⟩
        rw [h.counted] at hroom
        omega
      · exact hle
    · intro hdedup
      rw [hconfig] at hdedup
      rw [hheld, List.nodup_append]
      refine ⟨h.distinct hdedup, List.nodup_singleton d, ?_⟩
      intro a ha b hb hab
      obtain rfl := List.mem_singleton.mp hb
      exact hno.2 ⟨hdedup, hab ▸ ha⟩

/-- Every operation keeps a queue consistent. -/
theorem perform (h : q.Consistent) (op : Operation) : (q.perform op).Consistent := by
  cases op with
  | add d => exact h.add d
  | emit d => exact h.add d
  | flush => exact Consistent.ofConfig q.config

theorem run (h : q.Consistent) (ops : List Operation) : (q.run ops).Consistent := by
  induction ops generalizing q with
  | nil => exact h
  | cons op ops ih => exact ih (h.perform op)

end Consistent

theorem config_perform (q : DiagnosticQueue) (op : Operation) : (q.perform op).config = q.config := by
  have hadd (d : Diagnostic) : (q.add d).2.config = q.config := by
    unfold add
    split <;> rfl
  cases op with
  | add d => exact hadd d
  | emit d => exact hadd d
  | flush => rfl

theorem config_run (q : DiagnosticQueue) (ops : List Operation) : (q.run ops).config = q.config := by
  induction ops generalizing q with
  | nil => rfl
  | cons op ops ih => exact (ih (q.perform op)).trans (q.config_perform op)

/-- **The contract of queues.** After any run of operations on a fresh queue the counter is right,
the errors held are within the limit, and nothing is held twice if duplicates are dropped. What comes
next is refused only if it is an error beyond the limit or held already; it is taken exactly if the
queue grows by it at its end, and else the queue stays as it is. Flushing then returns what is held in
the order of location, keeps the order of report at each place, and leaves a fresh queue. -/
theorem run_keeps_contract (config : QueueConfig) (ops : List Operation) :
    let q := (ofConfig config).run ops
    q.errorCount = q.heldErrors ∧
    (0 < config.errorLimit → q.heldErrors ≤ config.errorLimit) ∧
    (config.deduplicate = true → q.held.Nodup) ∧
    (∀ d,
      ((q.add d).1 = false ↔
        (d.isError = true ∧ 0 < config.errorLimit ∧ config.errorLimit ≤ q.heldErrors) ∨
          (config.deduplicate = true ∧ d ∈ q.held)) ∧
      ((q.add d).1 = true ↔ (q.add d).2.held = q.held ++ [d]) ∧
      ((q.add d).1 = false → (q.add d).2 = q)) ∧
    q.flush.1.Perm q.held ∧
    q.flush.1.Pairwise Diagnostic.NotAfter ∧
    (∀ k, q.flush.1.filter (fun d => sortKey d = k) = q.held.filter fun d => sortKey d = k) ∧
    q.flush.2 = ofConfig config := by
  intro q
  have hconsistent : q.Consistent := (Consistent.ofConfig config).run ops
  have hconfig : q.config = config := config_run _ ops
  refine ⟨hconsistent.counted, ?_, ?_, fun d => ⟨?_, add_fst_eq_true_iff, ?_⟩, flush_perm,
    flush_sorted, flush_stable, ?_⟩
  · rw [← hconfig]
    exact hconsistent.limited
  · rw [← hconfig]
    exact hconsistent.distinct
  · rw [add_fst, accepts_eq_false_iff, hconsistent.counted, hconfig]
  · intro h
    rw [add_fst] at h
    rw [add_of_refuses h]
  · rw [flush_snd, hconfig]

/-- An error without location, for runs on fixed input. -/
def sampleError (message : String) : Diagnostic := { code := .e4001, severity := .error, message }

/-- A queue for two errors takes two of three and refuses a second copy of a warning. After a flush
it takes errors again. -/
theorem run_keeps_contract_limited :
    let warning : Diagnostic := { code := .e4002, severity := .warning }
    let ops : List Operation := [.add (sampleError "a"), .emit warning, .emit warning,
      .add (sampleError "b"), .add (sampleError "c")]
    let q := (ofConfig ⟨2, true⟩).run ops
    q.errorCount = 2 ∧ q.held = [sampleError "a", warning, sampleError "b"] ∧
      (q.add (sampleError "c")).1 = false ∧ (q.flush.2.add (sampleError "c")).1 = true := by
  intro warning ops q
  have hcontract := run_keeps_contract ⟨2, true⟩ ops
  refine ⟨by decide +kernel, by decide +kernel,
    (hcontract.2.2.2.1 _).1.mpr (.inl ⟨rfl, by decide, ?_⟩), ?_⟩
  · rw [← hcontract.1]
    decide +kernel
  · rw [hcontract.2.2.2.2.2.2.2]
    decide +kernel

end DiagnosticQueue

end TypedLowering
