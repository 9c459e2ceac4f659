import Mathlib.Data.Int.Order.Basic
import Mathlib.Tactic.Positivity
import Mathlib.Tactic.Ring

/-! Two's complement integers of a fixed width. A value carries its range, so an
operation either stays inside it, reports `none`, or wraps. -/
namespace FpgaCraft.Library

@[ext] structure Signed (bits : Nat) where
  val : Int
  lower : -2 ^ (bits - 1) ≤ val
  upper : val < 2 ^ (bits - 1)
deriving DecidableEq, Repr

namespace Signed

/-- The checked constructor: `none` outside the range. -/
def new (value : Int) : Option (Signed bits) :=
  if h : -2 ^ (bits - 1) ≤ value ∧ value < 2 ^ (bits - 1) then some ⟨value, h.1, h.2⟩ else none

instance : Zero (Signed bits) where
  zero := ⟨0, by have : (0 : Int) < 2 ^ (bits - 1) := by positivity
                 omega, by positivity⟩

@[simp] theorem val_zero : (0 : Signed bits).val = 0 := rfl

theorem new_eq_some_iff {value : Int} {x : Signed bits} : new value = some x ↔ x.val = value := by
  unfold new
  split
  · rename_i h
    rw [Option.some.injEq]
    exact ⟨fun heq => heq ▸ rfl, fun heq => Signed.ext heq.symm⟩
  · rename_i h
    refine ⟨fun heq => (Option.some_ne_none x heq.symm).elim, fun heq => ?_⟩
    exact (h (heq ▸ ⟨x.lower, x.upper⟩)).elim

@[simp] theorem new_val (x : Signed bits) : new x.val = some x :=
  new_eq_some_iff.mpr rfl

theorem new_of_range {value : Int} (lower : -2 ^ (bits - 1) ≤ value)
    (upper : value < 2 ^ (bits - 1)) : ∃ x : Signed bits, new value = some x ∧ x.val = value :=
  ⟨⟨value, lower, upper⟩, new_eq_some_iff.mpr rfl, rfl⟩

def wrap (value : Int) : Signed bits where
  val := Int.bmod value (2 ^ bits)
  lower := by
    have h := Int.le_bmod (x := value) (m := 2 ^ bits) (by positivity)
    cases bits with
    | zero => simp
    | succ bits =>
      have hp : ((2 ^ (bits + 1) : Nat) : Int) = 2 * 2 ^ bits := by push_cast; ring
      rw [hp] at h
      simp only [Nat.add_sub_cancel]
      omega
  upper := by
    have h := Int.bmod_lt (x := value) (m := 2 ^ bits) (by positivity)
    cases bits with
    | zero => simp
    | succ bits =>
      have hp : ((2 ^ (bits + 1) : Nat) : Int) = 2 * 2 ^ bits := by push_cast; ring
      rw [hp] at h
      simp only [Nat.add_sub_cancel]
      omega

theorem wrap_of_range {value : Int} (positive : 0 < bits) (lower : -2 ^ (bits - 1) ≤ value)
    (upper : value < 2 ^ (bits - 1)) : (wrap value : Signed bits).val = value := by
  obtain ⟨bits, rfl⟩ := Nat.exists_eq_add_of_lt positive
  have hp : ((2 ^ (0 + bits + 1) : Nat) : Int) = 2 * 2 ^ bits := by push_cast; ring
  simp only [Nat.zero_add, Nat.add_sub_cancel] at lower upper
  apply Int.bmod_eq_of_le
  · rw [hp]; omega
  · rw [hp]; omega

end Signed
end FpgaCraft.Library
