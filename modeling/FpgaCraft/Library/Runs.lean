import Mathlib.Algebra.Order.Ring.Nat
import Mathlib.Algebra.BigOperators.Group.List.Basic

/-! Numberings by runs: the first `runs[0]` numbers belong to class 0, the next `runs[1]` to
class 1, and so on. -/
namespace FpgaCraft.Library

def runIndex : List Nat → Nat → Nat
  | [], _ => 0
  | run :: runs, n => if n < run then 0 else runIndex runs (n - run) + 1

def runStart (runs : List Nat) (k : Nat) : Nat := (runs.take k).sum

@[simp] theorem runStart_zero (runs : List Nat) : runStart runs 0 = 0 := rfl

@[simp] theorem runStart_cons_succ (run : Nat) (runs : List Nat) (k : Nat) :
    runStart (run :: runs) (k + 1) = run + runStart runs k := rfl

theorem runIndex_lt {runs : List Nat} {n : Nat} (h : n < runs.sum) :
    runIndex runs n < runs.length := by
  induction runs generalizing n with
  | nil => exact (Nat.not_lt_zero n h).elim
  | cons run runs ih =>
    rw [runIndex, List.length_cons]
    split
    · exact Nat.succ_pos _
    · rw [List.sum_cons] at h
      exact Nat.succ_lt_succ (ih (by omega))

theorem runIndex_of_mem {runs : List Nat} {k n : Nat} (lower : runStart runs k ≤ n)
    (upper : n < runStart runs k + runs.getD k 0) : runIndex runs n = k := by
  induction runs generalizing k n with
  | nil =>
    rw [List.getD_nil] at upper
    omega
  | cons run runs ih =>
    rw [runIndex]
    cases k with
    | zero =>
      rw [runStart_zero, Nat.zero_add, List.getD_cons_zero] at upper
      rw [if_pos upper]
    | succ k =>
      rw [runStart_cons_succ] at lower upper
      rw [List.getD_cons_succ] at upper
      have tail : runIndex runs (n - run) = k := ih (by omega) (by omega)
      rw [if_neg (by omega), tail]

theorem mem_run {runs : List Nat} {n : Nat} (h : n < runs.sum) :
    n ∈ List.range' (runStart runs (runIndex runs n)) (runs.getD (runIndex runs n) 0) := by
  induction runs generalizing n with
  | nil => exact (Nat.not_lt_zero n h).elim
  | cons run runs ih =>
    rw [List.mem_range'_1, runIndex]
    split
    · rename_i first
      simpa using first
    · rename_i later
      rw [List.sum_cons] at h
      have tail := List.mem_range'_1.mp (ih (n := n - run) (by omega))
      rw [runStart_cons_succ, List.getD_cons_succ]
      omega

theorem runStart_add_le (runs : List Nat) (k : Nat) :
    runStart runs k + runs.getD k 0 ≤ runs.sum := by
  induction runs generalizing k with
  | nil => simp [runStart]
  | cons run runs ih =>
    rw [List.sum_cons]
    cases k with
    | zero => simp
    | succ k =>
      rw [runStart_cons_succ, List.getD_cons_succ, Nat.add_assoc]
      exact Nat.add_le_add_left (ih k) run

theorem le_runIndex (runs runs' : List Nat) {n : Nat} (h : runs.sum ≤ n) :
    runs.length ≤ runIndex (runs ++ runs') n := by
  induction runs generalizing n with
  | nil => exact Nat.zero_le _
  | cons run runs ih =>
    rw [List.sum_cons] at h
    rw [List.cons_append, runIndex, if_neg (by omega), List.length_cons]
    exact Nat.succ_le_succ (ih (by omega))

end FpgaCraft.Library
