import Mathlib.Logic.Function.Basic
import Mathlib.Data.List.FinRange

/-! The lines of a fully associative cache, over any keys and values: what a
replacement does to their coherence with a backing store and to the uniqueness of
their keys. -/
namespace FpgaCraft.Library

structure Line (K V : Type*) where
  key : K
  value : V
deriving DecidableEq, Repr

/-- The lines of a cache; `none` is an unoccupied one. -/
abbrev Lines (K V : Type*) (n : Nat) := Fin n → Option (Line K V)

namespace Lines
variable {K V : Type*} {n : Nat}

def lookup [DecidableEq K] (lines : Lines K V n) (key : K) : Option V :=
  (List.finRange n).findSome? fun e =>
    match lines e with
    | some line => if line.key = key then some line.value else none
    | none => none

def Coherent (store : K → Option V) (lines : Lines K V n) : Prop :=
  ∀ e line, lines e = some line → store line.key = some line.value

def Distinct (lines : Lines K V n) : Prop :=
  ∀ e e' line line', lines e = some line → lines e' = some line' → line.key = line'.key → e = e'

def Absent (key : K) (lines : Lines K V n) : Prop :=
  ∀ e line, lines e = some line → line.key ≠ key

theorem coherent_empty (store : K → Option V) : Coherent store (fun _ : Fin n => none) := by
  intro e line h
  cases h

theorem distinct_empty : Distinct (fun _ : Fin n => (none : Option (Line K V))) := by
  intro e e' line line' h
  cases h

section Replace
variable {lines : Lines K V n} {store : K → Option V} {key : K} {value : V} (e : Fin n)

theorem Coherent.replace (coherent : Coherent store lines) (h : store key = some value) :
    Coherent store (Function.update lines e (some ⟨key, value⟩)) := by
  intro e' line hline
  by_cases he : e' = e
  · subst he
    rw [Function.update_self, Option.some.injEq] at hline
    exact hline ▸ h
  · rw [Function.update_of_ne he] at hline
    exact coherent e' line hline

theorem Distinct.replace (distinct : Distinct lines) (absent : Absent key lines) :
    Distinct (Function.update lines e (some ⟨key, value⟩)) := by
  intro i j line line' hi hj hkey
  by_cases hie : i = e <;> by_cases hje : j = e
  · exact hie.trans hje.symm
  · rw [hie, Function.update_self, Option.some.injEq] at hi
    rw [Function.update_of_ne hje] at hj
    exact (absent j line' hj (by rw [← hkey, ← hi])).elim
  · rw [hje, Function.update_self, Option.some.injEq] at hj
    rw [Function.update_of_ne hie] at hi
    exact (absent i line hi (by rw [hkey, ← hj])).elim
  · rw [Function.update_of_ne hie] at hi
    rw [Function.update_of_ne hje] at hj
    exact distinct i j line line' hi hj hkey

end Replace

variable [DecidableEq K] {lines : Lines K V n} {store : K → Option V} {key : K}

theorem mem_of_lookup {value : V} (h : lookup lines key = some value) :
    ∃ e, lines e = some ⟨key, value⟩ := by
  obtain ⟨e, -, he⟩ := List.exists_of_findSome?_eq_some h
  refine ⟨e, ?_⟩
  split at he
  · rename_i line hline
    split at he
    · rename_i hkey
      rw [hline]
      cases line
      simp_all
    · cases he
  · cases he

theorem lookup_eq_none_iff : lookup lines key = none ↔ Absent key lines := by
  unfold lookup Absent
  rw [List.findSome?_eq_none_iff]
  constructor
  · intro h e line hline hkey
    have := h e (List.mem_finRange e)
    simp [hline, hkey] at this
  · intro h e _
    split
    · rename_i line hline
      rw [if_neg (h e line hline)]
    · rfl

theorem Coherent.lookup {value : V} (coherent : Coherent store lines)
    (h : Lines.lookup lines key = some value) : store key = some value := by
  obtain ⟨e, he⟩ := mem_of_lookup h
  exact coherent e _ he

end Lines
end FpgaCraft.Library
