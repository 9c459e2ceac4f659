import Mathlib.Data.List.Range

/-! Events by cycle number: the last one and its age, and a listener that reports each event
a fixed number of cycles later. -/
namespace FpgaCraft.Library
variable {α : Type*}

/-- The last event before cycle `n`, and how many cycles have passed since. -/
def lastEvent (f : Nat → Option α) : Nat → Option (α × Nat)
  | 0 => none
  | n + 1 =>
    match f n with
    | some b => some (b, 0)
    | none => (lastEvent f n).map fun e => (e.1, e.2 + 1)

variable {f : Nat → Option α}

theorem lastEvent_of_some {n : Nat} {b : α} (h : f n = some b) : lastEvent f (n + 1) = some (b, 0) := by
  rw [lastEvent, h]

theorem lastEvent_of_none {n : Nat} (h : f n = none) :
    lastEvent f (n + 1) = (lastEvent f n).map fun e => (e.1, e.2 + 1) := by
  rw [lastEvent, h]

theorem event_of_lastEvent {n k : Nat} {b : α} (h : lastEvent f n = some (b, k)) :
    ∃ a, f a = some b ∧ n = a + 1 + k := by
  induction n generalizing k with
  | zero => cases h
  | succ n ih =>
    cases hf : f n with
    | some c =>
      rw [lastEvent_of_some hf] at h
      cases h
      exact ⟨n, hf, rfl⟩
    | none =>
      rw [lastEvent_of_none hf, Option.map_eq_some_iff] at h
      obtain ⟨⟨c, j⟩, hlast, heq⟩ := h
      cases heq
      obtain ⟨a, ha, hn⟩ := ih hlast
      exact ⟨a, ha, by omega⟩

theorem lastEvent_of_event {a k : Nat} {b : α} (h : f a = some b)
    (quiet : ∀ j, j < k → f (a + 1 + j) = none) : lastEvent f (a + 1 + k) = some (b, k) := by
  induction k with
  | zero => exact lastEvent_of_some h
  | succ k ih =>
    rw [← Nat.add_assoc, lastEvent_of_none (quiet k (Nat.lt_succ_self k)),
      ih fun j hj => quiet j (by omega), Option.map_some]

section Delayed
variable {g : Nat → Option α} {delay : Nat}

/-- A listener that shows the last event when it has reached the age `delay`. -/
def Reports (f g : Nat → Option α) (delay : Nat) : Prop :=
  ∀ n, g n = (lastEvent f n).bind fun e => if e.2 = delay then some e.1 else none

def Spaced (f : Nat → Option α) (delay : Nat) : Prop :=
  ∀ a b, f a = some b → ∀ j, j < delay → f (a + 1 + j) = none

theorem Reports.eq_some (reports : Reports f g delay) {n : Nat} {b : α} (h : g n = some b) :
    ∃ a, f a = some b ∧ n = a + 1 + delay := by
  rw [reports n, Option.bind_eq_some_iff] at h
  obtain ⟨⟨c, k⟩, hlast, hk⟩ := h
  rw [Option.ite_none_right_eq_some] at hk
  obtain ⟨rfl, heq⟩ := hk
  cases heq
  exact event_of_lastEvent hlast

theorem Reports.late (reports : Reports f g delay) (spaced : Spaced f delay) (n : Nat) :
    g (n + 1 + delay) = f n := by
  cases hf : f n with
  | some b =>
    rw [reports, lastEvent_of_event hf (spaced n b hf)]
    simp
  | none =>
    cases hg : g (n + 1 + delay) with
    | none => rfl
    | some b =>
      obtain ⟨a, ha, hn⟩ := reports.eq_some hg
      obtain rfl : n = a := by omega
      exact hf ▸ ha.symm

theorem Reports.early (reports : Reports f g delay) {n : Nat} (h : n ≤ delay) : g n = none := by
  cases hg : g n with
  | none => rfl
  | some b =>
    obtain ⟨a, -, hn⟩ := reports.eq_some hg
    omega

theorem Reports.pulse (reports : Reports f g delay) (positive : 0 < delay) {n : Nat} {b : α}
    (h : g n = some b) : g (n + 1) = none := by
  rw [reports n, Option.bind_eq_some_iff] at h
  obtain ⟨⟨c, k⟩, hlast, hk⟩ := h
  rw [Option.ite_none_right_eq_some] at hk
  obtain ⟨rfl, -⟩ := hk
  rw [reports (n + 1)]
  cases hf : f n with
  | some d =>
    rw [lastEvent_of_some hf, Option.bind_some, if_neg positive.ne]
  | none =>
    rw [lastEvent_of_none hf, hlast, Option.map_some, Option.bind_some,
      if_neg (Nat.succ_ne_self _)]

theorem Reports.filterMap (reports : Reports f g delay) (spaced : Spaced f delay) (n : Nat) :
    (List.range (n + 1 + delay)).filterMap g = (List.range n).filterMap f := by
  induction n with
  | zero =>
    rw [List.range_zero, List.filterMap_nil, List.filterMap_eq_nil_iff]
    intro m hm
    exact reports.early (by have := List.mem_range.mp hm; omega)
  | succ n ih =>
    rw [show n + 1 + 1 + delay = n + 1 + delay + 1 by omega, List.range_succ, List.filterMap_append,
      ih, List.range_succ, List.filterMap_append]
    simp only [List.filterMap_cons, List.filterMap_nil, reports.late spaced n]

end Delayed
end FpgaCraft.Library
