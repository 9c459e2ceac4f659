import Mathlib.Data.List.FinRange

/-! Clocked registers: of several assignments to one register, in a loop or one after the other,
the last one wins. -/
namespace FpgaCraft.Library

/-- The value of a register after `for i < n: if (f i) r <= ...`. -/
def lastAssigned {n : Nat} {α : Type*} (f : Fin n → Option α) (old : α) : α :=
  (List.finRange n).foldl (fun v i => (f i).getD v) old

theorem lastAssigned_succ {n : Nat} {α : Type*} (f : Fin (n + 1) → Option α) (old : α) :
    lastAssigned f old = (f (Fin.last n)).getD (lastAssigned (fun i => f i.castSucc) old) := by
  simp only [lastAssigned, List.finRange_succ_last, List.foldl_append, List.foldl_map,
    List.foldl_cons, List.foldl_nil]

theorem lastAssigned_cases {n : Nat} {α : Type*} (f : Fin n → Option α) (old : α) :
    (lastAssigned f old = old ∧ ∀ i, f i = none) ∨
      ∃ i, f i = some (lastAssigned f old) ∧ ∀ j, i < j → f j = none := by
  induction n with
  | zero => exact .inl ⟨rfl, fun i => i.elim0⟩
  | succ n ih =>
    rw [lastAssigned_succ]
    cases hlast : f (Fin.last n) with
    | some v => exact .inr ⟨Fin.last n, hlast, fun j hj => (Fin.not_lt.mpr j.le_last hj).elim⟩
    | none =>
      rw [Option.getD_none]
      rcases ih (fun i => f i.castSucc) with ⟨heq, hnone⟩ | ⟨i, hi, hnone⟩
      · exact .inl ⟨heq, fun i => i.lastCases hlast hnone⟩
      · refine .inr ⟨i.castSucc, hi, fun j => ?_⟩
        induction j using Fin.lastCases with
        | last => exact fun _ => hlast
        | cast j => exact fun hj => hnone j hj

def lastWritten {κ α : Type*} [DecidableEq κ] (log : List (κ × α)) (a : κ) : Option α :=
  log.foldl (fun v w => if w.1 = a then some w.2 else v) none

theorem lastWritten_concat {κ α : Type*} [DecidableEq κ] (log : List (κ × α)) (w : κ × α) (a : κ) :
    lastWritten (log ++ [w]) a = if w.1 = a then some w.2 else lastWritten log a := by
  simp only [lastWritten, List.foldl_append, List.foldl_cons, List.foldl_nil]

end FpgaCraft.Library
