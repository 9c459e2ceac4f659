import Mathlib.Algebra.Group.Nat.Defs
import Mathlib.Data.Nat.Basic

/-! A scan of `height` rows of `width` cells, row by row and then from the top again, and
the counters that hold it. -/
namespace FpgaCraft.Library

def column (width n : Nat) : Nat := n % width

def row (width height n : Nat) : Nat := n / width % height

theorem mod_succ {w n : Nat} (positive : 0 < w) :
    (n + 1) % w = if n % w + 1 < w then n % w + 1 else 0 := by
  have bound := Nat.mod_lt n positive
  have same : (n + 1) % w = (n % w + 1) % w := by rw [Nat.mod_add_mod]
  rw [same]
  split
  · rename_i inside
    exact Nat.mod_eq_of_lt inside
  · rename_i last
    rw [show n % w + 1 = w by omega, Nat.mod_self]

theorem div_succ {w n : Nat} (positive : 0 < w) :
    (n + 1) / w = if n % w + 1 < w then n / w else n / w + 1 := by
  have multiple : w ∣ n + 1 ↔ ¬n % w + 1 < w := by
    rw [Nat.dvd_iff_mod_eq_zero, mod_succ positive]
    split <;> simp [*]
  rw [Nat.succ_div]
  split
  · rename_i full
    rw [if_neg (multiple.mp full)]
  · rename_i inside
    rw [if_pos (not_not.mp (mt multiple.mpr inside)), Nat.add_zero]

theorem column_succ {w n : Nat} (positive : 0 < w) :
    column w (n + 1) = if column w n + 1 < w then column w n + 1 else 0 :=
  mod_succ positive

theorem row_succ {w h n : Nat} (width : 0 < w) (height : 0 < h) :
    row w h (n + 1) = if column w n + 1 < w then row w h n
      else if row w h n + 1 < h then row w h n + 1 else 0 := by
  unfold row column
  rw [div_succ width]
  split
  · rfl
  · exact mod_succ height

theorem column_lt {w n : Nat} (positive : 0 < w) : column w n < w := Nat.mod_lt n positive

theorem row_lt {w h n : Nat} (positive : 0 < h) : row w h n < h := Nat.mod_lt _ positive

theorem column_sub {w n k : Nat} (left : k ≤ column w n) : column w (n - k) = column w n - k := by
  unfold column at *
  have parts := Nat.mod_add_div n w
  rw [show n - k = n % w - k + w * (n / w) by omega, Nat.add_mul_mod_self_left]
  rcases Nat.eq_zero_or_pos w with rfl | positive
  · rw [Nat.mod_zero]
  · have bound := Nat.mod_lt n positive
    exact Nat.mod_eq_of_lt (by omega)

theorem row_sub {w h n k : Nat} (left : k ≤ column w n) : row w h (n - k) = row w h n := by
  unfold row column at *
  have parts := Nat.mod_add_div n w
  rcases Nat.eq_zero_or_pos w with rfl | positive
  · rw [Nat.div_zero, Nat.div_zero]
  · have bound := Nat.mod_lt n positive
    rw [show n - k = n % w - k + w * (n / w) by omega, Nat.add_mul_div_left _ _ positive,
      Nat.div_eq_of_lt (by omega), Nat.zero_add]

theorem column_sub_of_lt {w n k : Nat} (left : column w n < k) (early : k ≤ n) (short : k ≤ w) :
    column w (n - k) = w + column w n - k := by
  unfold column at *
  have parts := Nat.mod_add_div n w
  obtain ⟨above, habove⟩ : ∃ above, n / w = above + 1 := by
    apply Nat.exists_eq_succ_of_ne_zero
    intro first
    rw [first, Nat.mul_zero] at parts
    omega
  rw [habove, Nat.mul_succ] at parts
  rw [show n - k = w + n % w - k + w * above by omega, Nat.add_mul_mod_self_left]
  exact Nat.mod_eq_of_lt (by omega)

theorem cell_iff {w h n x y : Nat} (inside : x < w) :
    column w n = x ∧ row w h n = y ↔ n % (w * h) = y * w + x := by
  unfold column row
  rw [Nat.mod_mul]
  constructor
  · rintro ⟨rfl, rfl⟩
    rw [Nat.mul_comm, Nat.add_comm]
  · intro same
    have left := congrArg (fun c => c % w) same
    have above := congrArg (fun c => c / w) same
    have bound : n % w < w := Nat.mod_lt n (Nat.zero_lt_of_lt inside)
    simp only [Nat.add_mul_mod_self_left, Nat.mul_add_mod_self_right, Nat.mod_mod,
      Nat.mod_eq_of_lt inside] at left
    rw [Nat.add_mul_div_left _ _ (Nat.zero_lt_of_lt inside), Nat.div_eq_of_lt bound, Nat.zero_add,
      Nat.add_comm, Nat.add_mul_div_right _ _ (Nat.zero_lt_of_lt inside), Nat.div_eq_of_lt inside,
      Nat.zero_add] at above
    exact ⟨left, above⟩

theorem dvd_add_sub_iff {t r n : Nat} (inside : r < t) : t ∣ n + (t - r) ↔ n % t = r := by
  have bound : n % t < t := Nat.mod_lt n (Nat.zero_lt_of_lt inside)
  have parts : n + (t - r) = t * (n / t) + (n % t + (t - r)) := by
    rw [← Nat.add_assoc, Nat.div_add_mod]
  rw [parts, Nat.dvd_add_right (Nat.dvd_mul_right t _)]
  constructor
  · rintro ⟨k, same⟩
    match k with
    | 0 => omega
    | 1 => omega
    | k + 2 =>
      rw [Nat.mul_add] at same
      omega
  · intro same
    refine ⟨1, ?_⟩
    rw [same, Nat.mul_one, Nat.add_sub_cancel' (Nat.le_of_lt inside)]

theorem counter_succ {k : Nat} {c : BitVec k} (bound : Nat) (fits : bound ≤ 2 ^ k)
    (h : c.toNat + 1 < bound) : (c + 1).toNat = c.toNat + 1 := by
  have one : (1 : BitVec k).toNat = 1 := by
    change 1 % 2 ^ k = 1
    exact Nat.mod_eq_of_lt (by omega)
  rw [BitVec.toNat_add, one, Nat.mod_eq_of_lt (Nat.lt_of_lt_of_le h fits)]

end FpgaCraft.Library
