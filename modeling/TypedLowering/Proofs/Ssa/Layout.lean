import Mathlib.Order.Bounds.Basic
import TypedLowering.Ssa.Layout

/-!
What a struct layout is good for. Each field stands as early as its alignment allows behind the field
before it, so fields follow one another without a common byte; the size is as small as the alignment of
the whole allows, so fields are aligned in every element of an array of instances.

Main definition: `StructDef.Laid`, which says all of this. Main result: `StructDef.laid`.
-/
namespace TypedLowering.Ssa
set_option autoImplicit false

/-! ## Rounding -/

/-- Rounding up is to the least multiple. -/
theorem isLeast_alignTo (offset : Nat) {align : Nat} (h : 0 < align) :
    IsLeast {n | offset ≤ n ∧ align ∣ n} (alignTo offset align) := by
  unfold alignTo
  refine ⟨⟨?_, Nat.dvd_mul_left _ _⟩, ?_⟩
  · have hdiv := Nat.div_add_mod' (offset + align - 1) align
    have hmod := Nat.mod_lt (offset + align - 1) h
    omega
  · rintro n ⟨hle, k, rfl⟩
    have hlt : (offset + align - 1) / align < k + 1 := by
      rw [Nat.div_lt_iff_lt_mul h, Nat.succ_mul, Nat.mul_comm]
      omega
    rw [Nat.mul_comm align k]
    exact Nat.mul_le_mul_right align (Nat.le_of_lt_succ hlt)

/-- Alignments are powers of two, of which the smaller divides the larger one. -/
theorem Ty.align_dvd_of_le {t u : Ty} (h : t.align ≤ u.align) : t.align ∣ u.align := by
  cases t <;> cases u <;> revert h <;> decide

theorem Ty.align_dvd_eight (t : Ty) : t.align ∣ 8 := by
  cases t <;> decide

theorem Ty.size_le_eight (t : Ty) : t.size ≤ 8 := by
  cases t <;> decide

namespace StructDef

/-! ## Ends -/

variable {start i j k : Nat} {ts : List Ty} {t : Ty}

theorem le_alignTo (start : Nat) (t : Ty) : start ≤ alignTo start t.align :=
  (isLeast_alignTo start t.align_pos).1.1

theorem endFrom_append (start : Nat) (ts us : List Ty) :
    endFrom start (ts ++ us) = endFrom (endFrom start ts) us := by
  induction ts generalizing start with
  | nil => rfl
  | cons t ts ih => exact ih _

theorem le_endFrom (start : Nat) (ts : List Ty) : start ≤ endFrom start ts := by
  induction ts generalizing start with
  | nil => exact Nat.le_refl _
  | cons t ts ih =>
    calc start ≤ alignTo start t.align := le_alignTo start t
      _ ≤ alignTo start t.align + t.size := Nat.le_add_right _ _
      _ ≤ endFrom start (t :: ts) := ih _

/-- Further fields end further on. -/
theorem endFrom_take_mono (h : i ≤ j) : endFrom start (ts.take i) ≤ endFrom start (ts.take j) := by
  obtain ⟨n, rfl⟩ := Nat.exists_eq_add_of_le h
  rw [List.take_add, endFrom_append]
  exact le_endFrom _ _

/-- A field stands at the end of those before it, as soon as it is aligned. -/
theorem getElem?_offsetsFrom (h : ts[i]? = some t) :
    (offsetsFrom start ts)[i]? = some (alignTo (endFrom start (ts.take i)) t.align) := by
  induction ts generalizing start i with
  | nil => cases h
  | cons u ts ih =>
    cases i with
    | zero =>
      cases h
      rfl
    | succ i => exact ih h

theorem endFrom_take_succ (h : ts[i]? = some t) :
    endFrom start (ts.take (i + 1)) = alignTo (endFrom start (ts.take i)) t.align + t.size := by
  rw [List.take_add_one, h, endFrom_append]
  rfl

/-- Fields that begin within eight bytes each end there. -/
theorem endFrom_le (h : start ≤ 8 * k) : endFrom start ts ≤ 8 * (k + ts.length) := by
  induction ts generalizing start k with
  | nil => exact h
  | cons t ts ih =>
    have haligned : alignTo start t.align ≤ 8 * k :=
      (isLeast_alignTo start t.align_pos).2 ⟨h, Nat.dvd_mul_right_of_dvd t.align_dvd_eight k⟩
    have hnext : alignTo start t.align + t.size ≤ 8 * (k + 1) := by
      have hsize := t.size_le_eight
      omega
    calc endFrom start (t :: ts) = endFrom (alignTo start t.align + t.size) ts := rfl
      _ ≤ 8 * (k + 1 + ts.length) := ih hnext
      _ = 8 * (k + (t :: ts).length) := by rw [List.length_cons, Nat.add_right_comm, Nat.add_assoc]

/-! ## Structs -/

variable (d : StructDef)

/-- Where the first fields of a struct end, as its offsets and the sizes of its fields say. -/
def endOf : Nat → Nat
  | 0 => 0
  | i + 1 => d.offsets.getD i 0 + (d.fields.getD i .void).size

/-- A layout in which fields are aligned, in order and apart, and no byte is wasted. -/
structure Laid : Prop where
  offsets_length : d.offsets.length = d.fields.length
  /-- A field stands at the least multiple of its alignment behind the field before it. -/
  offset : ∀ {i : Nat} {t : Ty}, d.fields[i]? = some t →
    ∃ o, d.offsets[i]? = some o ∧ IsLeast {n | d.endOf i ≤ n ∧ t.align ∣ n} o
  /-- A field ends before each later one begins. -/
  apart : ∀ {i j : Nat} {t : Ty} {o o' : Nat}, i < j → d.fields[i]? = some t → d.offsets[i]? = some o →
    d.offsets[j]? = some o' → o + t.size ≤ o'
  align_nil : d.fields = [] → d.align = 1
  align_max : d.fields ≠ [] → IsGreatest {a | ∃ t ∈ d.fields, t.align = a} d.align
  /-- The size is the least multiple of the alignment behind the last field. -/
  size_least : IsLeast {n | d.endOf d.fields.length ≤ n ∧ d.align ∣ n} d.size
  inside : ∀ {i : Nat} {t : Ty} {o : Nat}, d.fields[i]? = some t → d.offsets[i]? = some o →
    o + t.size ≤ d.size
  /-- Fields are aligned in instances that follow one another from an aligned address on. -/
  array : ∀ {base k i : Nat} {t : Ty} {o : Nat}, d.align ∣ base → d.fields[i]? = some t →
    d.offsets[i]? = some o → t.align ∣ base + k * d.size + o
  /-- Sizes and offsets fit into a machine word unless there are far too many fields. -/
  size_le : d.size ≤ 8 * d.fields.length

variable {d} {o : Nat}

theorem offset_eq (h : d.fields[i]? = some t) (ho : d.offsets[i]? = some o) :
    o = alignTo (endFrom 0 (d.fields.take i)) t.align :=
  Option.some.inj (ho.symm.trans (getElem?_offsetsFrom h))

theorem endOf_eq (h : i ≤ d.fields.length) : d.endOf i = endFrom 0 (d.fields.take i) := by
  cases i with
  | zero => rfl
  | succ i =>
    have ht : d.fields[i]? = some d.fields[i] := List.getElem?_eq_getElem h
    rw [endOf, List.getD_eq_getElem?_getD, List.getD_eq_getElem?_getD, ht,
      show d.offsets[i]? = _ from getElem?_offsetsFrom ht, endFrom_take_succ ht]
    rfl

/-- The alignment is one, or that of a field, and none has a larger one. -/
theorem align_spec (d : StructDef) : d.align ∈ 1 :: d.fields.map Ty.align ∧
    ∀ a ∈ 1 :: d.fields.map Ty.align, a ≤ d.align := by
  have hmax : (1 :: d.fields.map Ty.align).max? = some d.align := List.max?_cons'
  exact List.max?_eq_some_iff.mp hmax

theorem align_pos (d : StructDef) : 0 < d.align := d.align_spec.2 1 (List.mem_cons_self ..)

theorem align_le (h : t ∈ d.fields) : t.align ≤ d.align :=
  d.align_spec.2 _ (List.mem_cons_of_mem _ (List.mem_map_of_mem h))

theorem align_eq_or (d : StructDef) : d.align = 1 ∨ ∃ t ∈ d.fields, t.align = d.align :=
  (List.mem_cons.mp d.align_spec.1).imp_right List.mem_map.mp

theorem align_dvd (h : t ∈ d.fields) : t.align ∣ d.align := by
  rcases d.align_eq_or with hone | ⟨u, -, hu⟩
  · have hle := align_le h
    have hpos := t.align_pos
    rw [show t.align = 1 by omega]
    exact Nat.one_dvd _
  · rw [← hu]
    exact Ty.align_dvd_of_le (hu ▸ align_le h)

theorem align_dvd_eight (d : StructDef) : d.align ∣ 8 := by
  rcases d.align_eq_or with hone | ⟨u, -, hu⟩
  · rw [hone]
    exact Nat.one_dvd _
  · exact hu ▸ u.align_dvd_eight

theorem isLeast_size (d : StructDef) :
    IsLeast {n | d.endOf d.fields.length ≤ n ∧ d.align ∣ n} d.size := by
  rw [endOf_eq (Nat.le_refl _), List.take_length]
  exact isLeast_alignTo _ d.align_pos

theorem end_le_size (h : d.fields[i]? = some t) (ho : d.offsets[i]? = some o) : o + t.size ≤ d.size := by
  have hlt : i < d.fields.length := (List.getElem?_eq_some_iff.mp h).1
  calc o + t.size = endFrom 0 (d.fields.take (i + 1)) := by rw [endFrom_take_succ h, offset_eq h ho]
    _ ≤ endFrom 0 (d.fields.take d.fields.length) := endFrom_take_mono hlt
    _ = d.endOf d.fields.length := (endOf_eq (Nat.le_refl _)).symm
    _ ≤ d.size := d.isLeast_size.1.1

theorem laid (d : StructDef) : d.Laid where
  offsets_length := length_offsetsFrom 0 d.fields
  offset := fun {i t} h => by
    have hlt : i < d.fields.length := (List.getElem?_eq_some_iff.mp h).1
    refine ⟨_, getElem?_offsetsFrom h, ?_⟩
    rw [endOf_eq (Nat.le_of_lt hlt)]
    exact isLeast_alignTo _ t.align_pos
  apart := fun {i j t o o'} hij h ho ho' => by
    have hj : j < d.fields.length := by
      rw [← length_offsetsFrom 0 d.fields]
      exact (List.getElem?_eq_some_iff.mp ho').1
    rw [offset_eq h ho, ← endFrom_take_succ h, offset_eq (List.getElem?_eq_getElem hj) ho']
    exact (endFrom_take_mono hij).trans (le_alignTo _ _)
  align_nil := fun h => by
    unfold align
    rw [h]
    rfl
  align_max := fun hne => by
    refine ⟨?_, fun a ⟨t, ht, hta⟩ => hta ▸ align_le ht⟩
    rcases d.align_eq_or with hone | h
    · -- alignments are positive, so a field has the alignment one, too
      obtain ⟨t, ht⟩ := List.exists_mem_of_ne_nil d.fields hne
      have hle := align_le ht
      have hpos := t.align_pos
      exact ⟨t, ht, by omega⟩
    · exact h
  size_least := d.isLeast_size
  inside := end_le_size
  array := fun {base k i t o} hbase h ho => by
    have hd := align_dvd (List.mem_of_getElem? h)
    have hsize : t.align ∣ k * d.size :=
      Nat.dvd_mul_left_of_dvd (Nat.dvd_trans hd d.isLeast_size.1.2) k
    rw [offset_eq h ho]
    exact Nat.dvd_add (Nat.dvd_add (Nat.dvd_trans hd hbase) hsize) (isLeast_alignTo _ t.align_pos).1.2
  size_le := by
    have hend : endFrom 0 d.fields ≤ 8 * (0 + d.fields.length) := endFrom_le (Nat.zero_le _)
    rw [Nat.zero_add] at hend
    exact (isLeast_alignTo _ d.align_pos).2 ⟨hend, Nat.dvd_mul_right_of_dvd d.align_dvd_eight _⟩

/-- A flag, a number and an integer: the number is moved on to its alignment, and the whole is
padded. -/
example : (⟨"mixed", [.i1, .f64, .i32]⟩ : StructDef).offsets = [0, 8, 16] ∧
    (⟨"mixed", [.i1, .f64, .i32]⟩ : StructDef).size = 24 := by decide

end StructDef

end TypedLowering.Ssa
