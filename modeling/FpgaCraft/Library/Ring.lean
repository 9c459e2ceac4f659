import Mathlib.Data.Nat.Log
import Mathlib.Data.Nat.ModEq
import Mathlib.Tactic.Ring

/-! A ring of cells that are addressed relative to a moving pointer, in registers of a fixed
width, and cells in row-major order. -/
namespace FpgaCraft.Library

section Wrap
variable {size w a b : Nat}

/-- A sum in a register of `w` bits, taken back once when it has left the ring. -/
def wrapAdd (w size a b : Nat) : Nat :=
  let sum := (a + b) % 2 ^ w
  if size ≤ sum then sum - size else sum

theorem wrapAdd_lt (fits : 2 ^ w ≤ 2 * size) : wrapAdd w size a b < size := by
  have bound : (a + b) % 2 ^ w < 2 ^ w := Nat.mod_lt _ (Nat.two_pow_pos w)
  unfold wrapAdd
  dsimp only
  split <;> omega

theorem wrapAdd_of_narrow (exact : size = 2 ^ w) : wrapAdd w size a b = (a + b) % size := by
  have bound : (a + b) % 2 ^ w < 2 ^ w := Nat.mod_lt _ (Nat.two_pow_pos w)
  unfold wrapAdd
  dsimp only
  rw [if_neg (by omega), exact]

theorem wrapAdd_of_wide (wide : 2 * size ≤ 2 ^ w + 1) (ha : a < size) (hb : b < size) :
    wrapAdd w size a b = (a + b) % size := by
  unfold wrapAdd
  rw [Nat.mod_eq_of_lt (show a + b < 2 ^ w by omega)]
  dsimp only
  split
  · rename_i left
    rw [Nat.mod_eq_sub_mod left, Nat.mod_eq_of_lt (by omega)]
  · rw [Nat.mod_eq_of_lt (by omega)]

/-- The register loses a carry unless it holds every sum or wraps where the ring does. -/
theorem wrapAdd_eq_mod_iff (fits : size ≤ 2 ^ w) :
    (∀ a, a < size → ∀ b, b < size → wrapAdd w size a b = (a + b) % size) ↔
      size = 2 ^ w ∨ 2 * size ≤ 2 ^ w + 1 := by
  constructor
  · intro exact
    by_contra! narrow
    have positive : 0 < 2 ^ w := Nat.two_pow_pos w
    have last := exact (size - 1) (by omega) (size - 1) (by omega)
    have carried : (size - 1 + (size - 1)) % 2 ^ w = 2 * size - 2 - 2 ^ w := by
      rw [Nat.mod_eq_sub_mod (by omega), Nat.mod_eq_of_lt (by omega)]
      omega
    have wrapped : (size - 1 + (size - 1)) % size = size - 2 := by
      rw [Nat.mod_eq_sub_mod (by omega), Nat.mod_eq_of_lt (by omega)]
      omega
    unfold wrapAdd at last
    rw [carried, wrapped] at last
    dsimp only at last
    rw [if_neg (by omega)] at last
    omega
  · rintro (narrow | wide) a ha b hb
    · exact wrapAdd_of_narrow narrow
    · exact wrapAdd_of_wide wide ha hb

theorem pow_clog_add_two_le (two : 2 ≤ size) : 2 ^ Nat.clog 2 size + 2 ≤ 2 * size := by
  have half : 2 ^ (Nat.clog 2 size).pred < size := Nat.pow_pred_clog_lt_self Nat.one_lt_two two
  have some : 0 < Nat.clog 2 size := Nat.clog_pos Nat.one_lt_two two
  have twice : 2 ^ Nat.clog 2 size = 2 ^ (Nat.clog 2 size).pred * 2 := by
    rw [← Nat.pow_succ, Nat.succ_pred_eq_of_pos some]
  omega

theorem wrapAdd_clog_iff (two : 2 ≤ size) :
    (∀ a, a < size → ∀ b, b < size → wrapAdd (Nat.clog 2 size) size a b = (a + b) % size) ↔
      ∃ k, size = 2 ^ k := by
  have narrow := pow_clog_add_two_le two
  rw [wrapAdd_eq_mod_iff (Nat.le_pow_clog Nat.one_lt_two size)]
  constructor
  · rintro (exact | wide)
    · exact ⟨_, exact⟩
    · omega
  · rintro ⟨k, rfl⟩
    rw [Nat.clog_pow 2 k Nat.one_lt_two]
    exact .inl rfl

end Wrap

section Rotation
variable {size n : Nat}

theorem existsUnique_rotation (pointer : Nat) (inside : n < size) :
    ∃! x, x < size ∧ (pointer + x) % size = n := by
  have bound : pointer % size < size := Nat.mod_lt _ (Nat.zero_lt_of_lt inside)
  have unique : ∀ x x', x < size → x' < size → (pointer + x) % size = (pointer + x') % size → x = x' := by
    intro x x' hx hx' same
    have cancelled : x % size = x' % size := Nat.ModEq.add_left_cancel' pointer same
    rwa [Nat.mod_eq_of_lt hx, Nat.mod_eq_of_lt hx'] at cancelled
  by_cases before : pointer % size ≤ n
  · refine ⟨n - pointer % size, ⟨by omega, ?_⟩, fun x hx => ?_⟩
    · rw [← Nat.mod_add_mod, Nat.add_sub_cancel' before, Nat.mod_eq_of_lt inside]
    · refine unique _ _ hx.1 (by omega) ?_
      rw [hx.2, ← Nat.mod_add_mod, Nat.add_sub_cancel' before, Nat.mod_eq_of_lt inside]
  · have around : pointer % size + (n + size - pointer % size) = n + size := by omega
    refine ⟨n + size - pointer % size, ⟨by omega, ?_⟩, fun x hx => ?_⟩
    · rw [← Nat.mod_add_mod, around, Nat.add_mod_right, Nat.mod_eq_of_lt inside]
    · refine unique _ _ hx.1 (by omega) ?_
      rw [hx.2, ← Nat.mod_add_mod, around, Nat.add_mod_right, Nat.mod_eq_of_lt inside]

end Rotation

section RowMajor
variable {length width height x y z n : Nat}

theorem rowMajor_lt (hx : x < length) (hy : y < height) (hz : z < width) :
    x * (width * height) + y * width + z < length * width * height := by
  calc x * (width * height) + y * width + z
    _ < x * (width * height) + (y + 1) * width := by
      rw [Nat.add_one_mul]
      omega
    _ ≤ x * (width * height) + height * width := Nat.add_le_add_left (Nat.mul_le_mul_right _ hy) _
    _ = (x + 1) * (width * height) := by rw [Nat.add_one_mul, Nat.mul_comm height]
    _ ≤ length * (width * height) := Nat.mul_le_mul_right _ hx
    _ = length * width * height := (Nat.mul_assoc _ _ _).symm

theorem rowMajor_eq_iff (hy : y < height) (hz : z < width) :
    x * (width * height) + y * width + z = n ↔
      x = n / (width * height) ∧ y = n / width % height ∧ z = n % width := by
  have nested : x * (width * height) + y * width + z = width * (height * x + y) + z := by
    ring
  have inner : 0 < width := Nat.zero_lt_of_lt hz
  rw [nested]
  constructor
  · rintro rfl
    have line : (width * (height * x + y) + z) / width = height * x + y := by
      rw [Nat.mul_add_div inner, Nat.div_eq_of_lt hz, Nat.add_zero]
    refine ⟨?_, ?_, ?_⟩
    · rw [← Nat.div_div_eq_div_mul, line, Nat.mul_add_div (Nat.zero_lt_of_lt hy),
        Nat.div_eq_of_lt hy, Nat.add_zero]
    · rw [line, Nat.mul_add_mod, Nat.mod_eq_of_lt hy]
    · rw [Nat.mul_add_mod, Nat.mod_eq_of_lt hz]
  · rintro ⟨rfl, rfl, rfl⟩
    rw [← Nat.div_div_eq_div_mul, Nat.div_add_mod, Nat.div_add_mod]

end RowMajor
end FpgaCraft.Library
