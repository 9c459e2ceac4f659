import FpgaCraft.Agreement.Normalize
import FpgaCraft.Software.March

/-! ## Directions that normalise beyond one

One Newton step from the entry of an octave falls short of the inverse square root, or lands
beyond it, depending on where in the octave the squared magnitude lies. -/
namespace FpgaCraft.Software
open Library

/-! ### The factor -/

theorem newton_le_iff {entry m limit : Nat} (positive : 0 < entry) :
    Agreement.newton entry m ≤ limit ↔
      256 * (384 - (256 * limit + 255) / entry) ≤ m / 2 * (entry * entry / 256) := by
  unfold Agreement.newton
  generalize m / 2 * (entry * entry / 256) = product
  calc entry * (384 - product / 256) / 256 ≤ limit
      ↔ (384 - product / 256) * entry ≤ 256 * limit + 255 := by
        rw [Nat.mul_comm]
        omega
    _ ↔ 384 - product / 256 ≤ (256 * limit + 255) / entry :=
        (Nat.le_div_iff_mul_le positive).symm
    _ ↔ 256 * (384 - (256 * limit + 255) / entry) ≤ product := by
        generalize (256 * limit + 255) / entry = factor
        omega

/-- The largest factor that keeps a component within one; a negative one is rounded away
from zero. -/
def factorLimit (c : Int) : Nat := if 0 < c then (65791 / c).toNat else (65536 / -c).toNat

/-- The squared magnitude `m` of the vector reaches the least one of its octave for which the
component does not overshoot. -/
def LongEnough (m : Nat) (c : Int) : Prop :=
  c = 0 ∨ 256 * (384 - (256 * factorLimit c + 255) / Agreement.swEntry m.log2) ≤
    m / 2 * (Agreement.swEntry m.log2 * Agreement.swEntry m.log2 / 256)

instance (m : Nat) (c : Int) : Decidable (LongEnough m c) := by unfold LongEnough; infer_instance

theorem le_factorLimit_iff {c : Int} (nonzero : c ≠ 0) (s : Nat) :
    s ≤ factorLimit c ↔ |c * s / 256| ≤ 256 := by
  unfold factorLimit
  rw [abs_le]
  rcases Int.lt_or_gt_of_ne nonzero with negative | positive
  · rw [if_neg (by omega)]
    have quotient := Int.le_ediv_iff_mul_le (a := s) (b := 65536) (c := -c) (by omega)
    have bound := Int.ediv_nonneg (a := 65536) (b := -c) (by omega) (by omega)
    have sign : c * s ≤ 0 := Int.mul_nonpos_of_nonpos_of_nonneg negative.le (Int.natCast_nonneg s)
    have swap : (s : Int) * -c = -(c * s) := by ring
    rw [swap] at quotient
    omega
  · rw [if_pos positive]
    have quotient := Int.le_ediv_iff_mul_le (a := s) (b := 65791) (c := c) (by omega)
    have bound := Int.ediv_nonneg (a := 65791) (b := c) (by omega) (by omega)
    have sign : 0 ≤ c * s := Int.mul_nonneg positive.le (Int.natCast_nonneg s)
    rw [Int.mul_comm] at quotient
    omega

theorem swEntry_pos : ∀ b < 19, 0 < Agreement.swEntry b := by decide +kernel

theorem longEnough_iff {m : Nat} (hlog : m.log2 < 19) (c : Int) :
    LongEnough m c ↔ |c * Fixed.rawInvSqrt m / 256| ≤ 256 := by
  by_cases zero : c = 0
  · rw [zero]
    exact iff_of_true (Or.inl rfl) (by simp)
  · rw [← le_factorLimit_iff zero, Fixed.rawInvSqrt, newton_le_iff (swEntry_pos _ hlog)]
    exact or_iff_right zero

/-! ### The normalised direction -/

theorem Vec3.magnitudeSquared_pos {v : Vec3} {magnitude : Fixed}
    (h : v.magnitudeSquared = some magnitude) (nonzero : magnitude.val ≠ 0) : 0 < magnitude.val := by
  rw [Agreement.val_of_magnitudeSquared h] at nonzero ⊢
  exact lt_of_le_of_ne (Agreement.rawMagnitude_nonneg v) nonzero.symm

/-- What the code says of any direction it is given: its normalised components are at most
one, and `ray_init` ends for every origin in the chunk. -/
structure Initialises (direction : Vec3) : Prop where
  normalized : ∃ n, direction.normalized = some n ∧ |n.x.val| ≤ 256 ∧ |n.y.val| ≤ 256 ∧
    |n.z.val| ≤ 256
  completes : ∀ (profile : Profile) (valid : Bool) (voxel : Block) (self : VoxelTraversalUnit),
    self.rayInitIn = true → self.rayDirectionIn = direction →
      MockCache.InBounds self.rayOriginIn.floor →
        (self.edge profile false valid voxel).isSome = true

theorem inWorld_of_inBounds {origin : Vec3} (h : MockCache.InBounds origin.floor) :
    InWorld origin := by
  have axis {o : Fixed} (h : -32 ≤ o.floor.val ∧ o.floor.val ≤ 31) : |o.val| ≤ 512000 := by
    have := o.val_floor
    exact abs_le.mpr (by omega)
  exact ⟨axis h.1, axis h.2.1, axis h.2.2⟩

theorem initialises_of_normalized {direction n : Vec3} (hn : direction.normalized = some n)
    (hx : |n.x.val| ≤ 256) (hy : |n.y.val| ≤ 256) (hz : |n.z.val| ≤ 256) :
    Initialises direction := by
  refine ⟨⟨n, hn, hx, hy, hz⟩, fun profile valid voxel self hinit hdirection inside => ?_⟩
  obtain ⟨setup, hsetup, -⟩ := raySetup_of_short (inWorld_of_inBounds inside) hn
    (hx.trans (by norm_num)) (hy.trans (by norm_num)) (hz.trans (by norm_num))
  subst hdirection
  simp only [VoxelTraversalUnit.edge, hinit, hsetup, Bool.false_eq_true, if_false, if_true,
    Option.bind_eq_bind, Option.bind_some]
  rfl

/-- For every direction with a squared magnitude: it can be initialised exactly when that is
long enough for each of its components. -/
theorem ray_init_iff (direction : Vec3) (magnitude : Fixed)
    (hmagnitude : direction.magnitudeSquared = some magnitude) (nonzero : magnitude.val ≠ 0) :
    Initialises direction ↔
      LongEnough magnitude.val.toNat direction.x.val ∧
        LongEnough magnitude.val.toNat direction.y.val ∧
          LongEnough magnitude.val.toNat direction.z.val := by
  have positive := Vec3.magnitudeSquared_pos hmagnitude nonzero
  have range := magnitude.range
  have hlog : magnitude.val.toNat.log2 < 19 := (Nat.log2_lt (by omega)).mpr (by norm_num; omega)
  obtain ⟨s, hs, hmul⟩ := Vec3.normalized_eq_mul hmagnitude positive
  rw [longEnough_iff hlog, longEnough_iff hlog, longEnough_iff hlog]
  refine ⟨fun h => ?_, fun ⟨hx, hy, hz⟩ => ?_⟩
  · obtain ⟨n, hn, hx, hy, hz⟩ := h.normalized
    rw [hmul] at hn
    obtain ⟨x, mx, hn⟩ := Option.bind_eq_some_iff.mp hn
    obtain ⟨y, my, hn⟩ := Option.bind_eq_some_iff.mp hn
    obtain ⟨z, mz, hn⟩ := Option.bind_eq_some_iff.mp hn
    obtain rfl := Option.some.inj hn
    rw [← hs, ← Agreement.val_of_mul mx, ← Agreement.val_of_mul my, ← Agreement.val_of_mul mz]
    exact ⟨hx, hy, hz⟩
  · have fits {c : Int} (h : |c| ≤ 256) : Fits c := fits_of_abs_le (h.trans (by norm_num))
    obtain ⟨n, hn, nx, ny, nz⟩ := Vec3.mul_of_fits ⟨rfl, rfl, rfl⟩ hs (fits hx) (fits hy) (fits hz)
    rw [← nx] at hx
    rw [← ny] at hy
    rw [← nz] at hz
    exact initialises_of_normalized (hmul.trans hn) hx hy hz

theorem ray_init_iff_forward : Initialises Vec3.FORWARD :=
  (ray_init_iff Vec3.FORWARD Fixed.one (by decide) (by decide)).mpr
    ⟨by decide +kernel, by decide +kernel, by decide +kernel⟩

def shortDirection : Vec3 := ⟨⟨40, by decide, by decide⟩, 0, 0⟩

/-- It is normalised to 262/256, where the table is read at its largest entry and the product
overflows. -/
theorem short_direction_panics :
    shortDirection.magnitudeSquared.map Signed.val = some 6 ∧
      shortDirection.normalized.map (fun n => n.x.val) = some 262 ∧
        (∀ origin, raySetup origin shortDirection = none) ∧ ¬Initialises shortDirection := by
  have hn : shortDirection.normalized = some ⟨⟨262, by decide, by decide⟩, 0, 0⟩ := by
    decide +kernel
  have hrecip : Fixed.recipLte1 ⟨262, by decide, by decide⟩ = none := by decide +kernel
  refine ⟨by decide +kernel, by rw [hn]; rfl, fun origin => ?_, fun h => ?_⟩
  · unfold raySetup
    refine Option.bind_eq_none_iff.mpr fun d hd => Option.bind_eq_none_iff.mpr fun r hr => ?_
    obtain rfl := Option.some.inj (hn.symm.trans hd)
    rw [hrecip] at hr
    cases hr
  · obtain ⟨n, hn', short, -⟩ := h.normalized
    obtain rfl := Option.some.inj (hn.symm.trans hn')
    exact absurd short (by decide)

end FpgaCraft.Software
