import FpgaCraft.Agreement.Reciprocal
import FpgaCraft.Hardware.RayInit
import FpgaCraft.Software.Setup

/-! ## The distances to the voxel boundaries

For a step up the hardware takes `1 - (o + floor o)` where the software takes `1 - o + floor o`:
the integer part is counted twice, the wrong way. -/
namespace FpgaCraft.Agreement
open Library Hardware

/-! ### Integer parts -/

theorem toInt_floor (o : Fixed) : ((o >>> D).setWidth (B - D)).toInt = o.toInt / 256 := by
  have hlt : o.toNat < 1048576 := o.isLt
  have part : ((o >>> D).setWidth (B - D)).toNat = o.toNat / 256 := by
    rw [BitVec.toNat_setWidth, BitVec.toNat_ushiftRight, Nat.shiftRight_eq_div_pow]
    norm_num
    omega
  rw [BitVec.toInt_eq_toNat_cond, BitVec.toInt_eq_toNat_cond, part]
  norm_num
  split <;> split <;> omega

theorem toInt_toFixed (p : Int12) : (toFixed p).toInt = 256 * p.toInt := by
  have hlt : p.toNat < 4096 := p.isLt
  have shifted : (toFixed p).toNat = 256 * p.toNat := by
    have zero : (0 : BitVec D).toNat = 0 := rfl
    rw [toFixed, BitVec.toNat_append, Nat.shiftLeft_eq, zero, Nat.or_zero, Nat.mul_comm]
    norm_num
  rw [BitVec.toInt_eq_toNat_cond, BitVec.toInt_eq_toNat_cond, shifted]
  norm_num
  split <;> split <;> omega

/-! ### One axis -/

def axisDist (o d : Fixed) : Fixed := Vtu.distOf (Vtu.stepOf d) o ((o >>> D).setWidth (B - D))

/-- The axis is not stepped up, or its integer part vanishes in twelve bits when doubled. -/
def Measured (o d : Fixed) : Prop := d.toInt ≤ 0 ∨ o.toInt / 256 = 0 ∨ o.toInt / 256 = -2048

theorem toInt_stepOf (d : Fixed) : (Vtu.stepOf d).toInt = if 0 < d.toInt then 1 else -1 := by
  unfold Vtu.stepOf
  split <;> rfl

theorem toInt_axisDist (o d : Fixed) : (axisDist o d).toInt =
    if 0 < d.toInt then Int.bmod (256 - (o.toInt + o.toInt / 256 * 256)) 1048576
    else o.toInt - o.toInt / 256 * 256 := by
  have hpos := toInt_floor o
  have range := toInt_range o
  unfold axisDist Vtu.distOf Vtu.stepOf
  by_cases up : 0 < d.toInt
  · rw [if_pos up, if_pos up]
    have hsum : fadd o (toFixed ((o >>> D).setWidth (B - D))) =
        BitVec.ofInt 20 (o.toInt + o.toInt / 256 * 256) := by
      rw [BitVec.ofInt_add, BitVec.ofInt_toInt, Int.mul_comm, ← hpos, ← toInt_toFixed,
        BitVec.ofInt_toInt]
      rfl
    have hone : FIXED_1 = BitVec.ofInt 20 256 := rfl
    rw [if_pos (by decide), fsub, hsum, hone, ← ofInt_sub, BitVec.toInt_ofInt]
    norm_num
  · rw [if_neg up, if_neg up, if_neg (by decide), fsub, BitVec.toInt_sub, toInt_toFixed, hpos]
    rw [Int.mul_comm]
    exact Int.bmod_eq_of_le (by norm_num; omega) (by norm_num; omega)

/-- The distance is the one to the boundary that is crossed next exactly on measured axes. -/
theorem axisDist_eq_iff (o d : Fixed) :
    (axisDist o d).toInt = (if 0 < d.toInt then (o.toInt / 256 + 1) * 256 - o.toInt
      else o.toInt - o.toInt / 256 * 256) ↔ Measured o d := by
  have range := toInt_range o
  rw [toInt_axisDist, Measured]
  by_cases up : 0 < d.toInt
  · rw [if_pos up, if_pos up]
    refine ⟨fun same => Or.inr ?_, fun measured => ?_⟩
    · have rest := Int.bmod_emod (x := 256 - (o.toInt + o.toInt / 256 * 256)) (m := 1048576)
      rw [same] at rest
      omega
    · rcases measured with down | zero | least
      · omega
      · rw [zero, Int.bmod_eq_of_le (by omega) (by omega)]
        omega
      · rw [least, show (256 - (o.toInt + -2048 * 256) : Int) =
            (-524032 - o.toInt) + (1048576 : Nat) by push_cast; ring,
          Int.add_bmod_right, Int.bmod_eq_of_le (by omega) (by omega)]
        omega
  · rw [if_neg up, if_neg up]
    exact iff_of_true rfl (Or.inl (by omega))

structure AxisExact (o : Fixed) (step : Int12) (dist tMax : Fixed) : Prop where
  boundary : dist.toInt = if 0 < step.toInt then (o.toInt / 256 + 1) * 256 - o.toInt
    else o.toInt - o.toInt / 256 * 256
  lower : 0 ≤ dist.toInt
  upper : dist.toInt ≤ 256
  software : ∀ (step' : Software.I16) (o' dist' : Software.Fixed), step'.val = step.toInt →
    o'.val = o.toInt → Software.RaySetup.distOf step' o' o'.floor = some dist' → dist'.val = dist.toInt
  tMax : 0 ≤ tMax.toInt

theorem toInt_tMaxOf_nonneg {dir r dist : Fixed} (least : r.toInt ≠ -524288)
    (lower : 0 ≤ dist.toInt) (upper : dist.toInt ≤ 256) :
    0 ≤ (Vtu.tMaxOf dir (Vtu.absOf r) dist).toInt := by
  have range := toInt_range r
  have magnitude : 0 ≤ (Vtu.absOf r).toInt := by
    unfold Vtu.absOf
    have hmsb := BitVec.msb_eq_toInt (x := r)
    split
    · rename_i negative
      rw [negative, eq_comm, decide_eq_true_eq] at hmsb
      rw [BitVec.toInt_neg, Int.bmod_eq_of_le (by norm_num; omega) (by norm_num; omega)]
      omega
    · rename_i positive
      rw [Bool.not_eq_true] at positive
      rw [positive, eq_comm, decide_eq_false_iff_not] at hmsb
      omega
  unfold Vtu.tMaxOf
  split
  · have range' := toInt_range (Vtu.absOf r)
    have below : (Vtu.absOf r).toInt * dist.toInt ≤ (Vtu.absOf r).toInt * 256 :=
      Int.mul_le_mul_of_nonneg_left upper magnitude
    have above : 0 ≤ (Vtu.absOf r).toInt * dist.toInt := Int.mul_nonneg magnitude lower
    rw [fmul_eq_ofInt, BitVec.toInt_ofInt, Int.bmod_eq_of_le (by norm_num; omega) (by norm_num; omega)]
    omega
  · decide

theorem axisExact_iff {o d dir r : Fixed} (least : r.toInt ≠ -524288) :
    AxisExact o (Vtu.stepOf d) (axisDist o d) (Vtu.tMaxOf dir (Vtu.absOf r) (axisDist o d)) ↔
      Measured o d := by
  have step : 0 < (Vtu.stepOf d).toInt ↔ 0 < d.toInt := by
    rw [toInt_stepOf]
    split <;> omega
  rw [← axisDist_eq_iff]
  simp only [← step]
  refine ⟨AxisExact.boundary, fun boundary => ?_⟩
  have range : 0 ≤ (axisDist o d).toInt ∧ (axisDist o d).toInt ≤ 256 := by
    rw [boundary]
    split <;> omega
  refine ⟨boundary, range.1, range.2, fun step' o' dist' hstep ho h => ?_,
    toInt_tMaxOf_nonneg least range.1 range.2⟩
  rw [Software.val_of_distOf h, hstep, ho, boundary]

/-! ### The unit -/

def DistancesExact (origin : Vec3) (v : Vtu) : Prop :=
  AxisExact origin.x v.rayStep.x v.rayDist.x v.walk.rayTMax.x ∧
    AxisExact origin.y v.rayStep.y v.rayDist.y v.walk.rayTMax.y ∧
      AxisExact origin.z v.rayStep.z v.rayDist.z v.walk.rayTMax.z

theorem distancesExact_iff {origin direction : Vec3} {v : Vtu}
    (hstep : v.rayStep = (raySetup origin direction).rayStep)
    (hdist : v.rayDist = (raySetup origin direction).rayDist)
    (hwalk : v.walk = (raySetup origin direction).start) :
    DistancesExact origin v ↔ Measured origin.x direction.x ∧
      Measured origin.y direction.y ∧ Measured origin.z direction.z := by
  unfold DistancesExact
  rw [hstep, hdist, hwalk]
  dsimp only [raySetup]
  refine and_congr ?_ (and_congr ?_ ?_)
  · exact axisExact_iff (recipLte1_ne_intMin (normalize direction).x)
  · exact axisExact_iff (recipLte1_ne_intMin (normalize direction).y)
  · exact axisExact_iff (recipLte1_ne_intMin (normalize direction).z)

/-- For every ray and whatever the unit did before: it starts to traverse fourteen edges after
a reset, and its distances are then right exactly when every axis is measured. -/
theorem ray_dist_iff (v : Vtu) (input : Nat → VtuIn) (hrst : (input 0).rst = true)
    (hrun : ∀ k, 0 < k → k < 14 → (input k).rst = false) :
    let s := trace Vtu.risingClkEdge input v
    let origin := (input 0).rayOrigin
    let direction := (input 0).rayDirection
    (∀ k, 0 < k → k < 14 → (s k).state = .init) ∧ (s 14).state = .traversing ∧
      (DistancesExact origin (s 14) ↔ Measured origin.x direction.x ∧
        Measured origin.y direction.y ∧ Measured origin.z direction.z) := by
  intro s origin direction
  have start := Vtu.traversing v hrst hrun
  have dist := Vtu.rayDist_traversing v hrst hrun
  refine ⟨fun k hk hk' => ?_, start.state, distancesExact_iff start.rayStep dist start.walk⟩
  obtain ⟨k, rfl⟩ := Nat.exists_eq_succ_of_ne_zero hk.ne'
  exact (Vtu.initialising v hrst hrun (by omega)).state

def castOnce (origin direction : Vec3) (k : Nat) : VtuIn :=
  ⟨decide (k = 0), origin, direction, BLOCK_AIR, false⟩

theorem castOnce_running (origin direction : Vec3) (k : Nat) (hk : 0 < k) (_ : k < 14) :
    (castOnce origin direction k).rst = false := decide_eq_false hk.ne'

theorem ray_dist_iff_down : DistancesExact ⟨0x180, 0, 0⟩
    (trace Vtu.risingClkEdge (castOnce ⟨0x180, 0, 0⟩ ⟨-0x100, 0, 0⟩) Caster.powerUp.vtu 14) :=
  (ray_dist_iff Caster.powerUp.vtu (castOnce ⟨0x180, 0, 0⟩ ⟨-0x100, 0, 0⟩) rfl
    (castOnce_running _ _)).2.2.mpr ⟨Or.inl (by decide), Or.inl (by decide), Or.inl (by decide)⟩

/-- From 1.5 along the axis the next boundary is said to lie 1.5 behind. -/
theorem ray_dist_negative :
    let s := trace Vtu.risingClkEdge (castOnce ⟨0x180, 0, 0⟩ ⟨0x100, 0, 0⟩) Caster.powerUp.vtu 14
    s.state = .traversing ∧ s.rayStep.x = 1 ∧ s.rayDist.x.toInt = -384 ∧
      s.walk.rayTMax.x.toInt < 0 ∧ ¬DistancesExact ⟨0x180, 0, 0⟩ s := by
  have running := castOnce_running ⟨0x180, 0, 0⟩ ⟨0x100, 0, 0⟩
  have start := Vtu.traversing Caster.powerUp.vtu
    (rfl : (castOnce ⟨0x180, 0, 0⟩ ⟨0x100, 0, 0⟩ 0).rst = true) running
  have dist := Vtu.rayDist_traversing Caster.powerUp.vtu
    (rfl : (castOnce ⟨0x180, 0, 0⟩ ⟨0x100, 0, 0⟩ 0).rst = true) running
  intro s
  have negative : s.rayDist.x.toInt = -384 := by
    rw [dist]
    decide
  refine ⟨start.state, ?_, negative, ?_, fun right => ?_⟩
  · rw [start.rayStep]
    decide
  · rw [start.walk]
    decide
  · have := right.1.lower
    omega

end FpgaCraft.Agreement
