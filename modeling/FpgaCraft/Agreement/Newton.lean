import FpgaCraft.Hardware.Vec3
import FpgaCraft.Software.Vec3

/-! ## One Newton step, in both worlds

Both inverse square roots take one Newton step from an entry of a look-up table that
depends on the octave of the input only. The step is the same; the tables are not. -/
namespace FpgaCraft.Agreement
open Library

def newton (entry m : Nat) : Nat := entry * (384 - m / 2 * (entry * entry / 256) / 256) / 256

theorem newton_antitone (entry : Nat) {m n : Nat} (h : m ≤ n) : newton entry n ≤ newton entry m := by
  unfold newton
  gcongr

theorem newton_le (entry m : Nat) : newton entry m ≤ entry * 384 / 256 := by
  unfold newton
  gcongr
  exact Nat.sub_le _ _

/-- What an entry for inputs with leading one `b` satisfies, so that the step stays in range. -/
def InRange (entry b : Nat) : Prop := entry ≤ 4096 ∧ 2 ^ b * (entry * entry / 256) ≤ 65536

instance (entry b : Nat) : Decidable (InRange entry b) := by unfold InRange; infer_instance

theorem InRange.product {entry b m : Nat} (h : InRange entry b) (hu : m < 2 ^ (b + 1)) :
    m / 2 * (entry * entry / 256) ≤ 65536 := by
  have hhalf : m / 2 ≤ 2 ^ b := by
    rw [Nat.pow_succ] at hu
    omega
  exact (Nat.mul_le_mul_right _ hhalf).trans h.2

theorem InRange.square {entry b : Nat} (h : InRange entry b) : entry * entry / 256 ≤ 65536 := by
  have := Nat.mul_le_mul h.1 h.1
  omega

theorem newton_lt {entry b : Nat} (h : InRange entry b) (m : Nat) : newton entry m ≤ 6144 := by
  have := newton_le entry m
  have := h.1
  omega

/-! ### The hardware step -/

section Hardware
open FpgaCraft.Hardware

theorem toInt_ofNat {n : Nat} (h : n < 524288) : (BitVec.ofNat 20 n).toInt = n := by
  rw [BitVec.toInt_ofNat']
  exact Int.bmod_eq_of_le (by omega) (by omega)

theorem fmul_eq_ofInt (a b : Fixed) : fmul a b = BitVec.ofInt 20 (a.toInt * b.toInt / 256) := by
  have ha := BitVec.le_toInt a
  have ha' := BitVec.toInt_lt (x := a)
  have hb := BitVec.le_toInt b
  have hb' := BitVec.toInt_lt (x := b)
  norm_num at ha ha' hb hb'
  have hprod : (a.signExtend (2 * B) * b.signExtend (2 * B)).toInt = a.toInt * b.toInt := by
    rw [BitVec.toInt_mul, BitVec.toInt_signExtend_of_le (by decide),
      BitVec.toInt_signExtend_of_le (by decide)]
    have habs : |a.toInt * b.toInt| ≤ 524288 * 524288 := by
      rw [abs_mul]
      exact mul_le_mul (abs_le.mpr (by omega)) (abs_le.mpr (by omega)) (abs_nonneg _) (by norm_num)
    obtain ⟨hl, hu⟩ := abs_le.mp habs
    exact Int.bmod_eq_of_le (by norm_num; omega) (by norm_num; omega)
  apply BitVec.eq_of_toInt_eq
  rw [fmul, BitVec.toInt_setWidth, BitVec.toInt_ofInt]
  have hshift : ((a.signExtend (2 * B) * b.signExtend (2 * B)).sshiftRight D).toInt =
      a.toInt * b.toInt / 256 := by
    rw [BitVec.toInt_sshiftRight, hprod, Int.shiftRight_eq_div_pow]
    norm_num
  rw [← hshift, BitVec.toInt_eq_toNat_bmod, Int.bmod_bmod_of_dvd (by norm_num)]

theorem fmul_ofNat {a b : Nat} (ha : a < 524288) (hb : b < 524288) :
    fmul (BitVec.ofNat 20 a) (BitVec.ofNat 20 b) = BitVec.ofNat 20 (a * b / 256) := by
  rw [fmul_eq_ofInt, toInt_ofNat ha, toInt_ofNat hb]
  norm_cast

/-- The entry of the hardware table for inputs with leading one `b`. -/
def hwEntry (b : Nat) : Nat := (InvSqrt.table.getD (18 - b) 0).toNat

theorem lutFrom_of_octave {m b : Nat} (hl : 2 ^ b ≤ m) (hu : m < 2 ^ (b + 1)) (hb : b < 20)
    (entries : List Fixed) (hlength : b < entries.length) :
    InvSqrt.lutFrom (BitVec.ofNat 20 m) entries entries.length =
      entries.getD (entries.length - 1 - b) 0 := by
  induction entries with
  | nil => exact absurd hlength (Nat.not_lt_zero b)
  | cons entry entries ih =>
    rw [List.length_cons] at hlength ⊢
    rw [InvSqrt.lutFrom, BitVec.getLsbD_ofNat]
    rcases Nat.lt_succ_iff_lt_or_eq.mp hlength with hlt | heq
    · have hbit : m.testBit entries.length = false :=
        Nat.testBit_lt_two_pow (hu.trans_le (Nat.pow_le_pow_right (by norm_num) hlt))
      have hindex : entries.length + 1 - 1 - b = entries.length - 1 - b + 1 := by omega
      rw [hbit, Bool.and_false, if_neg Bool.false_ne_true, ih hlt, hindex, List.getD_cons_succ]
    · have hbit : m.testBit b = true := Nat.testBit_of_two_pow_le_and_two_pow_add_one_gt hl hu
      rw [← heq, hbit, decide_eq_true hb, Bool.and_true, if_pos rfl, Nat.add_sub_cancel, Nat.sub_self,
        List.getD_cons_zero]

theorem lut_of_octave {m b : Nat} (hl : 2 ^ b ≤ m) (hu : m < 2 ^ (b + 1)) (hb : b < 19) :
    InvSqrt.lut (BitVec.ofNat 20 m) = BitVec.ofNat 20 (hwEntry b) := by
  rw [hwEntry, BitVec.ofNat_toNat, BitVec.setWidth_eq]
  exact lutFrom_of_octave hl hu (by omega) InvSqrt.table hb

theorem hwEntry_inRange : ∀ b < 19, InRange (hwEntry b) b := by decide

theorem invSqrt_ofNat {m b : Nat} (hl : 2 ^ b ≤ m) (hu : m < 2 ^ (b + 1)) (hb : b < 19) :
    invSqrt (BitVec.ofNat 20 m) = BitVec.ofNat 20 (newton (hwEntry b) m) := by
  have hrange := hwEntry_inRange b hb
  have hentry := hrange.1
  have hsquare := hrange.square
  have hproduct := hrange.product hu
  have hm : m < 524288 := hu.trans_le (Nat.pow_le_pow_right (by norm_num) hb)
  have hhalf : BitVec.ofNat 20 m >>> 1 = BitVec.ofNat 20 (m / 2) := by
    apply BitVec.eq_of_toNat_eq
    rw [BitVec.toNat_ushiftRight, BitVec.toNat_ofNat, BitVec.toNat_ofNat, Nat.shiftRight_eq_div_pow]
    omega
  have hfactor (q : Nat) (hq : q ≤ 384) :
      fsub FIXED_1_5 (BitVec.ofNat 20 q) = BitVec.ofNat 20 (384 - q) := by
    apply BitVec.eq_of_toNat_eq
    have h384 : BitVec.toNat FIXED_1_5 = 384 := rfl
    rw [fsub, BitVec.toNat_sub, BitVec.toNat_ofNat, BitVec.toNat_ofNat, h384]
    change (2 ^ 20 - q % 2 ^ 20 + 384) % 2 ^ 20 = _ % 2 ^ 20
    omega
  rw [invSqrt, lut_of_octave hl hu hb, hhalf, fmul_ofNat (by omega) (by omega),
    fmul_ofNat (by omega) (by omega), Nat.mul_comm (hwEntry b * hwEntry b / 256),
    hfactor _ (by omega), fmul_ofNat (by omega) (by omega)]
  rfl

end Hardware

/-! ### The software step -/

section Software
open FpgaCraft.Software

/-- The entry of the software table for inputs with leading one `b`. -/
def swEntry (b : Nat) : Nat :=
  if b = 0 then Fixed.recipSqrt 1 else Fixed.recipSqrt (3 * 2 ^ (b - 1))

theorem swEntry_inRange : ∀ b < 19, InRange (swEntry b) b := by decide +kernel

theorem lut_leadingZeros : ∀ b < 19, (Fixed.InvSqrt.lut (19 - b)).map Signed.val =
    some (swEntry b : Int) := by decide +kernel

theorem mul_of_nat {x y : Fixed} {a b : Nat} (hx : x.val = a) (hy : y.val = b)
    (h : a * b / 256 < 524288) : ∃ r, Fixed.mul x y = some r ∧ r.val = (a * b / 256 : Nat) := by
  have hval : (x.val * y.val) >>> Fixed.D = ((a * b / 256 : Nat) : Int) := by
    rw [hx, hy, Int.shiftRight_eq_div_pow]
    norm_cast
  rw [Fixed.mul, hval]
  exact Signed.new_of_range (by norm_num; omega) (by norm_num; omega)

theorem invSqrt_of_octave {x : Fixed} {m b : Nat} (hx : x.val = m) (hl : 2 ^ b ≤ m)
    (hu : m < 2 ^ (b + 1)) (hb : b < 19) :
    ∃ r, Fixed.invSqrt x = some r ∧ r.val = newton (swEntry b) m := by
  have hrange := swEntry_inRange b hb
  have hentry := hrange.1
  have hsquare := hrange.square
  have hproduct := hrange.product hu
  have hpos : 0 < m := Nat.lt_of_lt_of_le (Nat.two_pow_pos b) hl
  have hzeros : x.leadingZeros = 19 - b := by
    have hlog : m.log2 = b := (Nat.log2_eq_iff hpos.ne').mpr ⟨hl, hu⟩
    rw [Fixed.leadingZeros, if_neg (by omega), if_neg (by omega), hx, Int.toNat_natCast, hlog]
  obtain ⟨entry, hlut, hval⟩ := Option.map_eq_some_iff.mp (lut_leadingZeros b hb)
  obtain ⟨square, hsq, vsq⟩ := mul_of_nat hval hval (by omega)
  have hhalf : (x.shr 1).val = ((m / 2 : Nat) : Int) := by
    change x.val >>> (1 : Nat) = _
    rw [hx, Int.shiftRight_eq_div_pow]
    norm_cast
  obtain ⟨half, hmul, vhalf⟩ := mul_of_nat hhalf vsq (by omega)
  have hsub : (384 : Int) - half.val = ((384 - m / 2 * (swEntry b * swEntry b / 256) / 256 : Nat) : Int) := by
    omega
  obtain ⟨factor, hfactor, vfactor⟩ : ∃ factor, Fixed.sub ⟨384, by decide, by decide⟩ half = some factor ∧
      factor.val = ((384 - m / 2 * (swEntry b * swEntry b / 256) / 256 : Nat) : Int) := by
    rw [Fixed.sub, hsub]
    exact Signed.new_of_range (by norm_num) (by norm_num; omega)
  obtain ⟨r, hr, vr⟩ := mul_of_nat hval vfactor (by
    have := newton_lt hrange m
    rw [newton] at this
    omega)
  refine ⟨r, ?_, vr⟩
  rw [Fixed.invSqrt, hzeros]
  simp only [hlut, hsq, hmul, hfactor, hr, Option.bind_eq_bind, Option.bind_some]

end Software
end FpgaCraft.Agreement
