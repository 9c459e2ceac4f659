import Mathlib.Algebra.BigOperators.Fin
import Mathlib.Algebra.Order.BigOperators.Group.Finset
import Mathlib.Data.Finset.Max
import Mathlib.Order.Monotone.Basic
import Mathlib.Algebra.Order.Field.Basic
import Mathlib.Tactic.Ring

/-! Walks through a grid, one axis at a time. Each axis has a clock, the time of its next step
by the number of steps it has made, and the axis whose clock shows least goes first. -/
namespace FpgaCraft.Library
variable {ι τ : Type*}

/-! ### The steps made -/

theorem sum_update [DecidableEq ι] [Fintype ι] (k : ι → Nat) (i : ι) (l : Nat) :
    ∑ j, Function.update k i l j + k i = ∑ j, k j + l := by
  rw [Finset.sum_update_of_mem (Finset.mem_univ i), ← Finset.add_sum_erase _ k (Finset.mem_univ i),
    Finset.sdiff_singleton_eq_erase]
  omega

/-- The numbers of steps along each axis that a walk can have made, `n` in all. -/
inductive Counts [DecidableEq ι] [Preorder τ] (clock : ι → Nat → τ) : Nat → (ι → Nat) → Prop
  | start : Counts clock 0 fun _ => 0
  | tick {n : Nat} {k : ι → Nat} {i : ι} (before : Counts clock n k)
      (least : ∀ j, clock i (k i) ≤ clock j (k j)) :
      Counts clock (n + 1) (Function.update k i (k i + 1))

namespace Counts
variable [DecidableEq ι] [Preorder τ] {clock : ι → Nat → τ} {n : Nat} {k : ι → Nat}

theorem sum_eq [Fintype ι] (h : Counts clock n k) : ∑ i, k i = n := by
  induction h with
  | start => exact Finset.sum_const_zero
  | @tick n k i before least ih =>
    have := sum_update k i (k i + 1)
    omega

theorem le [Fintype ι] (h : Counts clock n k) (i : ι) : k i ≤ n := by
  rw [← h.sum_eq]
  exact Finset.single_le_sum (fun j _ => Nat.zero_le (k j)) (Finset.mem_univ i)

theorem passed (mono : ∀ i, Monotone (clock i)) (h : Counts clock n k) {i : ι} (moved : 0 < k i)
    (j : ι) : clock i (k i - 1) ≤ clock j (k j) := by
  induction h generalizing j with
  | start => exact absurd moved (Nat.lt_irrefl 0)
  | @tick n k a before least ih =>
    have later (j : ι) : clock j (k j) ≤ clock j (Function.update k a (k a + 1) j) := by
      refine mono j ?_
      by_cases h : j = a
      · rw [h, Function.update_self]
        exact Nat.le_succ _
      · rw [Function.update_of_ne h]
    refine le_trans ?_ (later j)
    by_cases h : i = a
    · rw [h, Function.update_self, Nat.add_sub_cancel]
      exact least j
    · rw [Function.update_of_ne h] at moved ⊢
      exact ih moved j

end Counts

/-! ### Bands around a ray -/

/-- A time at which a point that moves along each axis at its own speed is between all the
bounds: it exists if the bounds of any two axes leave room for one. -/
theorem exists_time_iff {F : Type*} [Field F] [LinearOrder F] [IsStrictOrderedRing F] [Fintype ι]
    {lower upper speed : ι → F} (forward : ∀ i, 0 ≤ speed i) :
    (∃ t : F, 0 ≤ t ∧ ∀ i, lower i ≤ t * speed i ∧ t * speed i ≤ upper i) ↔
      (∀ i, 0 ≤ upper i) ∧ (∀ i, speed i = 0 → lower i ≤ 0) ∧
        ∀ i j, lower i * speed j ≤ upper j * speed i := by
  constructor
  · rintro ⟨t, positive, within⟩
    refine ⟨fun i => ?_, fun i still => ?_, fun i j => ?_⟩
    · exact (mul_nonneg positive (forward i)).trans (within i).2
    · have := (within i).1
      rwa [still, mul_zero] at this
    · calc lower i * speed j ≤ t * speed i * speed j :=
            mul_le_mul_of_nonneg_right (within i).1 (forward j)
        _ = t * speed j * speed i := by ring
        _ ≤ upper j * speed i := mul_le_mul_of_nonneg_right (within j).2 (forward i)
  · rintro ⟨above, below, room⟩
    -- the latest of the times at which a lower bound is reached
    let moving := Finset.univ.filter fun i => 0 < speed i
    by_cases late : ∃ i ∈ moving, 0 < lower i
    · obtain ⟨i₀, hi₀, hlate⟩ := late
      obtain ⟨i, hi, greatest⟩ := moving.exists_max_image (fun i => lower i / speed i) ⟨i₀, hi₀⟩
      have fast (j : ι) (hj : j ∈ moving) : 0 < speed j := (Finset.mem_filter.mp hj).2
      have positive : 0 ≤ lower i / speed i :=
        (div_nonneg hlate.le (forward i₀)).trans (greatest i₀ hi₀)
      refine ⟨lower i / speed i, positive, fun j => ⟨?_, ?_⟩⟩
      · rcases (forward j).eq_or_lt' with still | moves
        · rw [still, mul_zero]
          exact below j still
        · rw [← div_le_iff₀ moves]
          exact greatest j (Finset.mem_filter.mpr ⟨Finset.mem_univ j, moves⟩)
      · rw [div_mul_eq_mul_div, div_le_iff₀ (fast i hi)]
        exact room i j
    · refine ⟨0, le_rfl, fun i => ?_⟩
      rw [zero_mul]
      refine ⟨?_, above i⟩
      rcases (forward i).eq_or_lt' with still | moves
      · exact below i still
      · by_contra early
        exact late ⟨i, Finset.mem_filter.mpr ⟨Finset.mem_univ i, moves⟩, not_le.mp early⟩

end FpgaCraft.Library
