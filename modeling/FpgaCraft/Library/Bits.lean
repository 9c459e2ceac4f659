import Mathlib.Data.Int.Basic
import Mathlib.Tactic.Ring

/-! Words as rows of bits: their number of ones, the counters that add it up, and the DC
content a word puts on a line; and residues modulo the size of a word. -/
namespace FpgaCraft.Library
variable {w : Nat}

def ofBits (f : Nat → Bool) : (w : Nat) → BitVec w
  | 0 => BitVec.nil
  | w + 1 => BitVec.cons (f w) (ofBits f w)

theorem getLsbD_ofBits (f : Nat → Bool) {w i : Nat} (h : i < w) : (ofBits f w).getLsbD i = f i := by
  induction w with
  | zero => exact absurd h (Nat.not_lt_zero i)
  | succ w ih =>
    rw [ofBits, BitVec.getLsbD_cons]
    split
    · rename_i last
      rw [last]
    · exact ih (by omega)

def ones (x : BitVec w) : Nat := (List.range w).countP fun i => x.getLsbD i

def zeros (x : BitVec w) : Nat := (List.range w).countP fun i => !x.getLsbD i

def disparity (x : BitVec w) : Int := ones x - zeros x

/-- A `k`-bit counter to which `for i < w: sum += x[i]` adds the bits of a word. -/
def bitSum (k : Nat) (x : BitVec w) : BitVec k :=
  (List.range w).foldl (fun sum i => sum + BitVec.ofNat k (x.getLsbD i).toNat) 0

theorem ones_add_zeros (x : BitVec w) : ones x + zeros x = w := by
  have total := List.length_eq_countP_add_countP (fun i => x.getLsbD i) (l := List.range w)
  have complement : zeros x = (List.range w).countP fun i => decide ¬x.getLsbD i = true := by
    simp only [zeros]
    congr 1
    funext i
    cases x.getLsbD i <;> rfl
  rw [List.length_range] at total
  rw [complement]
  exact total.symm

theorem ones_le (x : BitVec w) : ones x ≤ w := by
  have := ones_add_zeros x
  omega

theorem disparity_eq (x : BitVec w) : disparity x = 2 * ones x - w := by
  have := ones_add_zeros x
  simp only [disparity]
  omega

theorem ones_cons (b : Bool) (x : BitVec w) : ones (BitVec.cons b x) = b.toNat + ones x := by
  simp only [ones, List.range_succ, List.countP_append, List.countP_singleton, BitVec.getLsbD_cons]
  have tail : (List.range w).countP (fun i => if i = w then b else x.getLsbD i) =
      (List.range w).countP fun i => x.getLsbD i := by
    apply List.countP_congr
    intro i hi
    rw [if_neg (List.mem_range.mp hi).ne]
  rw [tail, Nat.add_comm]
  cases b <;> simp

theorem ones_not (x : BitVec w) : ones (~~~x) = zeros x := by
  apply List.countP_congr
  intro i hi
  simp [List.mem_range.mp hi]

theorem disparity_cons (b : Bool) (x : BitVec w) :
    disparity (BitVec.cons b x) = (if b then 1 else -1) + disparity x := by
  rw [disparity_eq, disparity_eq, ones_cons]
  cases b <;> simp <;> ring

theorem disparity_not (x : BitVec w) : disparity (~~~x) = -disparity x := by
  have := ones_add_zeros x
  rw [disparity_eq, disparity_eq, ones_not]
  omega

theorem bitSum_eq (k : Nat) (x : BitVec w) : bitSum k x = BitVec.ofNat k (ones x) := by
  have fold (l : List Nat) (start : BitVec k) :
      l.foldl (fun sum i => sum + BitVec.ofNat k (x.getLsbD i).toNat) start =
        start + BitVec.ofNat k (l.countP fun i => x.getLsbD i) := by
    induction l generalizing start with
    | nil => simp
    | cons i l ih =>
      rw [List.foldl_cons, ih, List.countP_cons]
      rw [BitVec.add_assoc, ← BitVec.ofNat_add, Nat.add_comm]
      cases x.getLsbD i <;> simp
  simpa [bitSum, ones] using fold (List.range w) 0

theorem ofInt_sub (k : Nat) (x y : Int) :
    BitVec.ofInt k (x - y) = BitVec.ofInt k x - BitVec.ofInt k y := by
  rw [Int.sub_eq_add_neg, BitVec.ofInt_add, BitVec.ofInt_neg, BitVec.sub_eq_add_neg]

theorem mul_mod_ne {M a c m p h H : Nat} (inverse : m * a % M = p) (divides : p ∣ M) (small : h ≤ H)
    (avoided : m * c % M % p ≠ 0 ∨ p * H < M ∧ p * H < m * c % M) : h * a % M ≠ c % M := by
  intro heq
  have scaled : m * c % M = h * p % M := by
    calc m * c % M = m * (h * a) % M := by rw [Nat.mul_mod, ← heq, ← Nat.mul_mod]
      _ = h * (m * a) % M := by rw [Nat.mul_left_comm]
      _ = h * p % M := by rw [Nat.mul_mod h p, ← inverse, Nat.mod_mod, ← Nat.mul_mod]
  rcases avoided with rest | ⟨room, large⟩
  · rw [scaled, Nat.mod_mod_of_dvd _ divides, Nat.mul_mod_left] at rest
    exact rest rfl
  · have bound : h * p ≤ p * H := by
      rw [Nat.mul_comm h]
      exact Nat.mul_le_mul_left p small
    rw [scaled, Nat.mod_eq_of_lt (by omega)] at large
    omega

end FpgaCraft.Library
