import Mathlib.Logic.Function.Basic
import Mathlib.Data.List.Induction
import Mathlib.Data.List.Nodup

/-! Loops that assign the cells of an array, each from its own old value. A cell may panic,
which ends the loop. -/
namespace FpgaCraft.Library

variable {ι α : Type*} [DecidableEq ι] (cell : ι → α → Option α)

def fill : List ι → (ι → α) → Option (ι → α)
  | [], data => some data
  | i :: cells, data =>
    (cell i (data i)).bind fun value => fill cells (Function.update data i value)

variable {cell}

theorem fill_of_not_mem {cells : List ι} {data data' : ι → α} (h : fill cell cells data = some data')
    {i : ι} (hi : i ∉ cells) : data' i = data i := by
  induction cells generalizing data with
  | nil => rw [Option.some.inj h]
  | cons j cells ih =>
    obtain ⟨value, -, hrest⟩ := Option.bind_eq_some_iff.mp h
    rw [List.mem_cons, not_or] at hi
    rw [ih hrest hi.2, Function.update_of_ne hi.1]

theorem fill_of_mem {cells : List ι} (nodup : cells.Nodup) {data data' : ι → α}
    (h : fill cell cells data = some data') {i : ι} (hi : i ∈ cells) :
    cell i (data i) = some (data' i) := by
  induction cells generalizing data with
  | nil => exact (List.not_mem_nil hi).elim
  | cons j cells ih =>
    obtain ⟨fresh, nodup'⟩ := List.nodup_cons.mp nodup
    obtain ⟨value, hvalue, hrest⟩ := Option.bind_eq_some_iff.mp h
    by_cases hij : i = j
    · subst hij
      rw [fill_of_not_mem hrest fresh, Function.update_self]
      exact hvalue
    · have hmem := (List.mem_cons.mp hi).resolve_left hij
      rw [← ih nodup' hrest hmem, Function.update_of_ne hij]

theorem exists_fill {cells : List ι} (total : ∀ i ∈ cells, ∀ value, (cell i value).isSome = true)
    (data : ι → α) : ∃ data', fill cell cells data = some data' := by
  induction cells generalizing data with
  | nil => exact ⟨data, rfl⟩
  | cons i cells ih =>
    obtain ⟨value, hvalue⟩ := Option.isSome_iff_exists.mp (total i List.mem_cons_self (data i))
    obtain ⟨data', hrest⟩ := ih (fun j hj => total j (List.mem_cons_of_mem _ hj))
      (Function.update data i value)
    exact ⟨data', Option.bind_eq_some_iff.mpr ⟨value, hvalue, hrest⟩⟩

theorem fill_congr {cells : List ι} (forgets : ∀ i ∈ cells, ∀ a b, cell i a = cell i b)
    {data data' : ι → α} (outside : ∀ i, i ∉ cells → data i = data' i) :
    fill cell cells data = fill cell cells data' := by
  induction cells generalizing data data' with
  | nil => rw [funext fun i => outside i List.not_mem_nil]
  | cons j cells ih =>
    rw [fill, fill, forgets j List.mem_cons_self (data j) (data' j)]
    congr 1
    funext value
    refine ih (fun i hi => forgets i (List.mem_cons_of_mem _ hi)) fun i hi => ?_
    by_cases hij : i = j
    · rw [hij, Function.update_self, Function.update_self]
    · rw [Function.update_of_ne hij, Function.update_of_ne hij]
      exact outside i fun h => hi ((List.mem_cons.mp h).resolve_left hij)

section Assignments
variable {entries : List (ι × α)} {i : ι}

theorem foldl_update_of_not_assigned (h : ∀ entry ∈ entries, entry.1 ≠ i) (data : ι → α) :
    entries.foldl (fun data entry => Function.update data entry.1 entry.2) data i = data i := by
  induction entries generalizing data with
  | nil => rfl
  | cons entry entries ih =>
    rw [List.foldl_cons, ih fun other hother => h other (List.mem_cons_of_mem _ hother),
      Function.update_of_ne (h entry List.mem_cons_self).symm]

theorem foldl_update_of_agree {a : α} (assigned : ∃ entry ∈ entries, entry.1 = i)
    (agree : ∀ entry ∈ entries, entry.1 = i → entry.2 = a) (data : ι → α) :
    entries.foldl (fun data entry => Function.update data entry.1 entry.2) data i = a := by
  induction entries using List.reverseRecOn with
  | nil => simp at assigned
  | append_singleton entries entry ih =>
    rw [List.foldl_append, List.foldl_cons, List.foldl_nil]
    by_cases hi : entry.1 = i
    · rw [hi, Function.update_self]
      exact agree entry (by simp) hi
    · rw [Function.update_of_ne (Ne.symm hi)]
      apply ih
      · simpa [hi] using assigned
      · intro other hother
        exact agree other (List.mem_append_left _ hother)

end Assignments
end FpgaCraft.Library
