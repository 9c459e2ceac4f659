import FpgaCraft.Library.Bits
import FpgaCraft.Agreement.Newton

/-! ## The sign of a hardware reciprocal

The three stages of `fixed_recip_lte1` wrap where the exact result does not fit. No input
brings them to the one number whose absolute value is negative. -/
namespace FpgaCraft.Agreement
open Library Hardware

/-- Twice the entry and its square, as numbers, for a magnitude with these low eight bits. -/
def recipEntry (j : Nat) : Nat × Nat :=
  let row := RecipLte1.table.getD (63 - j / 4) (0x100, 0x100)
  (row.1.toNat, row.2.toNat)

def oddInverse (a : Nat) : Nat :=
  let odd := a / Nat.gcd a 1048576
  let step (x : Nat) : Nat := x * (1048578 - odd * x % 1048576) % 1048576
  step (step (step odd))

/-- No multiple up to 2048 of the square brings the reciprocal to the least number. -/
def Avoids (entry : Nat × Nat) (j round : Nat) : Prop :=
  let inverse := oddInverse entry.2
  let part := Nat.gcd entry.2 1048576
  let target := entry.1 + 1572864 - (j * entry.2 + round) / 256
  inverse * entry.2 % 1048576 = part ∧ entry.2 < 524288 ∧
    (inverse * target % 1048576 % part ≠ 0 ∨
      part * 2048 < 1048576 ∧ part * 2048 < inverse * target % 1048576)

instance (entry : Nat × Nat) (j round : Nat) : Decidable (Avoids entry j round) := by
  unfold Avoids
  infer_instance

theorem avoids : ∀ j < 256, Avoids (recipEntry j) j 0 ∧ Avoids (recipEntry j) j 255 := by
  decide +kernel

theorem Avoids.not_least {entry : Nat × Nat} {j round h : Nat} (avoids : Avoids entry j round)
    (bound : h ≤ 2048) : h * entry.2 % 1048576 ≠
      (entry.1 + 1572864 - (j * entry.2 + round) / 256) % 1048576 := by
  obtain ⟨inverse, -, apart⟩ := avoids
  exact mul_mod_ne inverse (Nat.gcd_dvd_right _ _) bound apart

theorem toInt_range (x : Fixed) : -524288 ≤ x.toInt ∧ x.toInt < 524288 := by
  have hl := BitVec.le_toInt x
  have hu := BitVec.toInt_lt (x := x)
  norm_num at hl hu
  exact ⟨hl, hu⟩

theorem toInt_of_msb (x : Fixed) : x.toInt = if x.msb then (x.toNat : Int) - 1048576 else x.toNat :=
  BitVec.toInt_eq_msb_cond x

theorem lut_entry (x : Fixed) :
    recipEntry (x.toInt.natAbs % 256) =
      ((RecipLte1.lut x).1.toNat, (RecipLte1.lut x).2.toNat) := by
  have magnitude : (if x.msb then -x else x).toNat = x.toInt.natAbs := by
    have hx := toInt_of_msb x
    have bound : x.toNat < 1048576 := x.isLt
    split
    · rename_i negative
      rw [if_pos negative] at hx
      have hneg : (-x).toNat = (1048576 - x.toNat) % 1048576 := BitVec.toNat_neg x
      have positive : 0 < x.toNat := by
        have := BitVec.msb_eq_decide x
        rw [negative, eq_comm, decide_eq_true_eq] at this
        exact Nat.lt_of_lt_of_le (by decide) this
      omega
    · rename_i positive
      rw [if_neg positive] at hx
      omega
  have index : ((if x.msb then -x else x).extractLsb' (D - 6) 6).toNat =
      x.toInt.natAbs % 256 / 4 := by
    rw [BitVec.extractLsb'_toNat, magnitude, Nat.shiftRight_eq_div_pow]
    norm_num
    omega
  unfold RecipLte1.lut recipEntry
  simp only [index]

theorem recipLte1_eq_ofInt (x : Fixed) (fits : (RecipLte1.lut x).2.toNat < 524288) :
    recipLte1 x = BitVec.ofInt 20
      ((if x.msb then -((RecipLte1.lut x).1.toNat : Int) else (RecipLte1.lut x).1.toNat) -
        x.toInt * (RecipLte1.lut x).2.toNat / 256) := by
  have square : (RecipLte1.lut x).2.toInt = (RecipLte1.lut x).2.toNat :=
    BitVec.toInt_eq_toNat_of_lt (by norm_num; omega)
  unfold recipLte1 fsub
  rw [fmul_eq_ofInt, square, ofInt_sub]
  congr 1
  split
  · rw [BitVec.ofInt_neg, BitVec.ofInt_natCast, BitVec.ofNat_toNat, BitVec.setWidth_eq]
  · rw [BitVec.ofInt_natCast, BitVec.ofNat_toNat, BitVec.setWidth_eq]

theorem recipLte1_ne_intMin (x : Fixed) : (recipLte1 x).toInt ≠ -524288 := by
  intro least
  obtain ⟨below, above⟩ := avoids (x.toInt.natAbs % 256) (Nat.mod_lt _ (by decide))
  rw [lut_entry] at below above
  have bound : x.toInt.natAbs / 256 ≤ 2048 := by
    have := toInt_range x
    omega
  have floor := below.not_least bound
  have ceiling := above.not_least bound
  have fits : (RecipLte1.lut x).2.toNat < 524288 := below.2.1
  rw [recipLte1_eq_ofInt x fits, BitVec.toInt_ofInt] at least
  dsimp only at floor ceiling
  have hx := toInt_of_msb x
  have hlt : x.toNat < 1048576 := x.isLt
  have congruent {value : Int} (h : Int.bmod value (2 ^ 20) = -524288) : value % 1048576 = 524288 := by
    have := Int.bmod_emod (x := value) (m := 2 ^ 20)
    norm_num at this h
    omega
  have rest := congruent least
  have part := Nat.mul_le_mul (Nat.le_of_lt_succ (Nat.mod_lt x.toInt.natAbs (by decide : 256 > 0)))
    (Nat.le_of_lt fits)
  generalize ha : x.toInt.natAbs = a at *
  generalize (RecipLte1.lut x).2.toNat = square at *
  have whole : (a : Int) * square = 256 * (a / 256 * square : Nat) + (a % 256 * square : Nat) := by
    norm_cast
    rw [← Nat.mul_assoc, ← Nat.add_mul, Nat.div_add_mod]
  generalize a / 256 * square = high at *
  generalize a % 256 * square = low at *
  split at rest
  · rename_i negative
    rw [if_pos negative] at hx
    have value : x.toInt = -(a : Int) := by omega
    rw [value, Int.neg_mul, whole] at rest
    omega
  · rename_i positive
    rw [if_neg positive] at hx
    have value : x.toInt = a := by omega
    rw [value, whole] at rest
    omega
end FpgaCraft.Agreement
