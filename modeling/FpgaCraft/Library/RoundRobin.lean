import Mathlib.Algebra.Order.Ring.Nat
import Mathlib.Data.Finset.Card
import Mathlib.Data.Fintype.Fin
import Mathlib.Tactic.SplitIfs
import FpgaCraft.Library.Lines

/-! Lines that are replaced in turn: as long as there are no more keys to hold than lines, the
ones filled last stay until all of them are held. -/
namespace FpgaCraft.Library.Lines
variable {K V : Type*} {n : Nat}

/-- How many replacements come before the one of line `e`. -/
def turns (next e : Fin n) : Nat := if next.val ≤ e.val then e.val - next.val else n + e.val - next.val

theorem exists_turns (next : Fin n) {t : Nat} (ht : t < n) : ∃ e, turns next e = t := by
  by_cases h : next.val + t < n
  · refine ⟨⟨next.val + t, h⟩, ?_⟩
    unfold turns
    rw [if_pos (Nat.le_add_right _ _), Nat.add_sub_cancel_left]
  · refine ⟨⟨next.val + t - n, by omega⟩, ?_⟩
    unfold turns
    dsimp only
    rw [if_neg (by omega)]
    omega

variable [NeZero n]

theorem turns_next {next e : Fin n} (h : e ≠ next) :
    turns (Fin.ofNat n (next.val + 1)) e + 1 = turns next e := by
  have hval : e.val ≠ next.val := fun heq => h (Fin.ext heq)
  have hnext : (Fin.ofNat n (next.val + 1)).val = if next.val + 1 = n then 0 else next.val + 1 := by
    change (next.val + 1) % n = _
    split
    · rename_i hlast
      rw [hlast, Nat.mod_self]
    · exact Nat.mod_eq_of_lt (by omega)
  unfold turns
  rw [hnext]
  split_ifs <;> omega

/-- The `k` lines that were filled last carry keys of `A`. -/
def Recent (A : Finset K) (k : Nat) (lines : Lines K V n) (next : Fin n) : Prop :=
  ∀ e, n ≤ turns next e + k → ∃ line, lines e = some line ∧ line.key ∈ A

variable {A : Finset K} {k : Nat} {lines : Lines K V n} {next : Fin n}

omit [NeZero n] in
theorem recent_zero : Recent A 0 lines next := by
  intro e h
  unfold turns at h
  split at h <;> omega

theorem Recent.replace {key : K} (recent : Recent A k lines next) (hkey : key ∈ A) (value : V) :
    Recent A (k + 1) (Function.update lines next (some ⟨key, value⟩))
      (Fin.ofNat n (next.val + 1)) := by
  intro e he
  by_cases h : e = next
  · subst h
    exact ⟨_, Function.update_self .., hkey⟩
  · rw [Function.update_of_ne h]
    have := turns_next h
    exact recent e (by omega)

omit [NeZero n] in
theorem Recent.lt_card [DecidableEq K] {key : K} (recent : Recent A k lines next) (hk : k ≤ n)
    (distinct : Distinct lines) (hkey : key ∈ A) (absent : Absent key lines) : k < A.card := by
  have slot (j : Fin k) : ∃ e line, turns next e = n - 1 - j.val ∧ lines e = some line ∧
      line.key ∈ A := by
    obtain ⟨e, he⟩ := exists_turns next (t := n - 1 - j.val) (by omega)
    obtain ⟨line, hline, hmem⟩ := recent e (by omega)
    exact ⟨e, line, he, hline, hmem⟩
  choose e line hturns hline hmem using slot
  have hcard := Finset.card_le_card_of_injOn (s := Finset.univ) (t := A.erase key)
    (fun j => (line j).key) (fun j _ => Finset.mem_erase.mpr ⟨absent _ _ (hline j), hmem j⟩) (by
      intro i _ j _ hij
      have hslot : e i = e j := distinct _ _ _ _ (hline i) (hline j) hij
      have := hturns i
      rw [hslot, hturns j] at this
      exact Fin.ext (by omega))
  rw [Finset.card_fin, Finset.card_erase_of_mem hkey] at hcard
  have := Finset.card_pos.mpr ⟨key, hkey⟩
  omega

end FpgaCraft.Library.Lines
