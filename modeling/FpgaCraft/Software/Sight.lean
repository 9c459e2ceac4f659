import Mathlib.Tactic.IntervalCases
import Mathlib.Tactic.Linarith
import FpgaCraft.Software.Exact
import FpgaCraft.Software.Orchestrator

/-! ## The rays of a level camera

The basis of a camera is rounded twice and the step from pixel to pixel a third time, to
multiples of 1/256 of about 4/256. So a row of pixels runs at a slope that is far from the
one of the basis; it still keeps a distance from the camera that the reciprocal can take. -/
namespace FpgaCraft.Software
open Library

theorem abs_le_of_mul_self {a b : Int} (hb : 0 ≤ b) (h : a * a ≤ b * b) : |a| ≤ b := by
  rw [← abs_of_nonneg hb]
  exact sq_le_sq.mp (by rw [sq, sq]; exact h)

/-! ### Rounding a basis vector -/

theorem floor_mul_self {n x : Int} (h : x = n / 256) :
    n * n - 130560 * |x| - 65025 ≤ 65536 * (x * x) ∧ 65536 * (x * x) ≤ n * n + 130560 * |x| := by
  obtain ⟨r, hr⟩ : ∃ r, r = n - 256 * x := ⟨_, rfl⟩
  have hlow : 0 ≤ r := by omega
  have hhigh : r ≤ 255 := by omega
  have hn : n = 256 * x + r := by omega
  have hsq : n * n = 65536 * (x * x) + 512 * (x * r) + r * r := by rw [hn]; ring
  have hcross : |x * r| ≤ |x| * 255 := by
    rw [abs_mul, abs_of_nonneg hlow]
    exact mul_le_mul_of_nonneg_left hhigh (abs_nonneg x)
  have hrr : r * r ≤ 255 * 255 := mul_self_le_mul_self hlow hhigh
  have hrr' := mul_self_nonneg r
  obtain ⟨hl, hu⟩ := abs_le.mp hcross
  constructor <;> linarith

/-- The horizontal part of a vector of about unit length. -/
structure Unit2 (x z low high : Int) : Prop where
  lower : low ≤ x * x + z * z
  upper : x * x + z * z ≤ high
  shortX : |x| ≤ 256
  shortZ : |z| ≤ 256
  taxi : |x| + |z| ≤ 365

theorem unit2_of_scaled {p q s x z L X : Int} (hx : x = p * s / 256) (hz : z = q * s / 256)
    (lower : L * 65536 ≤ (p * p + q * q) * (s * s))
    (upper : (p * p + q * q) * (s * s) ≤ X * 65536) (hX : X ≤ 65300) :
    Unit2 x z (L - 730) (X + 730) := by
  obtain ⟨lx, ux⟩ := floor_mul_self hx
  obtain ⟨lz, uz⟩ := floor_mul_self hz
  have hsum : (p * p + q * q) * (s * s) = p * s * (p * s) + q * s * (q * s) := by ring
  have short {n y : Int} (hy : y = n / 256) (hn : n * n ≤ 65300 * 65536) : |y| ≤ 256 := by
    have habs : |n| ≤ 65420 := abs_le_of_mul_self (by norm_num) (by linarith)
    obtain ⟨hl, hu⟩ := abs_le.mp habs
    exact abs_le.mpr (by omega)
  have sx := short hx (by have := mul_self_nonneg (q * s); linarith)
  have sz := short hz (by have := mul_self_nonneg (p * s); linarith)
  -- first the crude bound, then the sum of the components from it
  have crude : x * x + z * z ≤ 66330 := by linarith
  have taxi : |x| + |z| ≤ 365 := by
    have h : (|x| + |z|) * (|x| + |z|) ≤ 365 * 365 := by
      have := mul_self_nonneg (|x| - |z|)
      have := abs_mul_abs_self x
      have := abs_mul_abs_self z
      linarith
    exact (abs_le.mp (abs_le_of_mul_self (by norm_num) h)).2
  exact ⟨by linarith, by linarith, sx, sz, taxi⟩

theorem heading_table : ∀ m < 269, 243 ≤ m →
    59536 * 65536 ≤ Fixed.rawInvSqrt m * Fixed.rawInvSqrt m * (256 * m) ∧
      Fixed.rawInvSqrt m * Fixed.rawInvSqrt m * (256 * m + 510) ≤ 63702 * 65536 := by
  decide +kernel

theorem basis_table : ∀ m < 252, 228 ≤ m →
    252 ≤ Fixed.rawInvSqrt m ∧ Fixed.rawInvSqrt m ≤ 269 ∧
      62000 * 65536 ≤ Fixed.rawInvSqrt m * Fixed.rawInvSqrt m * (256 * m) ∧
      Fixed.rawInvSqrt m * Fixed.rawInvSqrt m * (256 * m + 510) ≤ 65300 * 65536 ∧
      239 * 65536 ≤ Fixed.rawInvSqrt m * (256 * m) ∧
      Fixed.rawInvSqrt m * (256 * m + 510) ≤ 250 * 65536 := by
  decide +kernel

/-! ### The slope of a row -/

/-- How far from the camera a row of pixels with a step of squared length `n` stays, times
the length of the step. -/
def clearance (n : Int) : Int :=
  if n ≤ 8 then 336 else if n ≤ 9 then 356 else if n ≤ 10 then 376 else if n ≤ 13 then 428
  else if n ≤ 16 then 475 else if n ≤ 17 then 490 else if n ≤ 18 then 504 else if n ≤ 20 then 531
  else 594

theorem clearance_mul_self {n : Int} (h : n ≤ 25) :
    14080 * n ≤ clearance n * clearance n ∧ 0 ≤ clearance n := by
  unfold clearance
  split_ifs <;> omega

/-- A component `u` of the basis with its step `a`, scaled from `w`. The last three are the
chord and two tangents of the square, which are linear in `u` once `a` is known. -/
structure Rounded (w u a : Int) : Prop where
  lower : 64 * a ≤ u
  upper : u ≤ 64 * a + 63
  scaled : 0 ≤ u ∧ 252 * w ≤ 256 * u + 255 ∧ 256 * u ≤ 269 * w ∨
    u < 0 ∧ 269 * w ≤ 256 * u + 255 ∧ 256 * u ≤ 252 * w
  chord : u * u ≤ (128 * a + 63) * u - 64 * a * (64 * a + 63)
  tangentL : 128 * a * u - 64 * a * (64 * a) ≤ u * u
  tangentU : (128 * a + 126) * u - (64 * a + 63) * (64 * a + 63) ≤ u * u

theorem rounded_of_scaled {w u a s : Int} (hs : 252 ≤ s) (hs' : s ≤ 269) (hu : u = w * s / 256)
    (ha : a = u * 4 / 256) : Rounded w u a := by
  have hl : 64 * a ≤ u := by omega
  have hu' : u ≤ 64 * a + 63 := by omega
  refine ⟨hl, hu', ?_, ?_, ?_, ?_⟩
  · rcases le_or_gt 0 w with h | h
    · have hlow : w * 252 ≤ w * s := mul_le_mul_of_nonneg_left hs h
      have hhigh : w * s ≤ w * 269 := mul_le_mul_of_nonneg_left hs' h
      exact .inl (by omega)
    · have hlow : w * 269 ≤ w * s := mul_le_mul_of_nonpos_left hs' h.le
      have hhigh : w * s ≤ w * 252 := mul_le_mul_of_nonpos_left hs h.le
      exact .inr (by omega)
  · have := mul_nonneg (sub_nonneg.mpr hl) (sub_nonneg.mpr hu')
    linarith
  · have := mul_self_nonneg (u - 64 * a)
    linarith
  · have := mul_self_nonneg (u - (64 * a + 63))
    linarith

/-- Where the first pixel of a row lies from the camera, by the components of the basis. -/
def firstPixel (w u a : Int) : Int := -w - u * 640 / 256 * 128 / 256 + a * 128 / 256

theorem clearance_le {wx wz ux uz a b c : Int} (hx : Rounded wz ux a) (hz : Rounded (-wx) uz b)
    (unit : Unit2 ux uz 61270 66030) (hc : c = clearance (a * a + b * b)) :
    a * a + b * b ≤ 25 ∧ 0 < a * a + b * b ∧
      c ≤ b * firstPixel wx ux a - a * firstPixel wz uz b := by
  obtain ⟨xl, xu, xs, xc, xt, xt'⟩ := hx
  obtain ⟨zl, zu, zs, zc, zt, zt'⟩ := hz
  obtain ⟨lower, upper, shortX, shortZ, -⟩ := unit
  obtain ⟨sxl, sxu⟩ := abs_le.mp shortX
  obtain ⟨szl, szu⟩ := abs_le.mp shortZ
  have al : -4 ≤ a := by omega
  have au : a ≤ 4 := by omega
  have bl : -4 ≤ b := by omega
  have bu : b ≤ 4 := by omega
  have half (u : Int) : 4 * (u * 640 / 256 * 128 / 256) ≤ 5 * u ∧
      5 * u ≤ 4 * (u * 640 / 256 * 128 / 256) + 3 := by omega
  have halfX := half ux
  have halfZ := half uz
  clear half shortX shortZ
  unfold firstPixel
  generalize ux * 640 / 256 * 128 / 256 = px at *
  generalize uz * 640 / 256 * 128 / 256 = pz at *
  generalize ux * ux = uxx at *
  generalize uz * uz = uzz at *
  -- for each pair of steps a linear problem; most pairs are too long or too short
  rcases xs with ⟨sx, xs⟩ | ⟨sx, xs⟩
  · have east : 0 ≤ a := by omega
    rcases zs with ⟨sz, zs⟩ | ⟨sz, zs⟩
    · have north : 0 ≤ b := by omega
      interval_cases a <;> interval_cases b <;> norm_num [clearance] at hc <;> omega
    · have south : b < 0 := by omega
      interval_cases a <;> interval_cases b <;> norm_num [clearance] at hc <;> omega
  · have west : a < 0 := by omega
    rcases zs with ⟨sz, zs⟩ | ⟨sz, zs⟩
    · have north : 0 ≤ b := by omega
      interval_cases a <;> interval_cases b <;> norm_num [clearance] at hc <;> omega
    · have south : b < 0 := by omega
      interval_cases a <;> interval_cases b <;> norm_num [clearance] at hc <;> omega

theorem row_far {wx wz ux uz a b : Int} (hx : Rounded wz ux a) (hz : Rounded (-wx) uz b)
    (unit : Unit2 ux uz 61270 66030) (x : Int) :
    14080 ≤ (firstPixel wx ux a + a * x) * (firstPixel wx ux a + a * x) +
      (firstPixel wz uz b + b * x) * (firstPixel wz uz b + b * x) := by
  obtain ⟨hn, hpos, hclear⟩ := clearance_le hx hz unit rfl
  obtain ⟨hsq, hnonneg⟩ := clearance_mul_self hn
  generalize firstPixel wx ux a = cx at *
  generalize firstPixel wz uz b = cz at *
  have hcross : clearance (a * a + b * b) * clearance (a * a + b * b) ≤
      (b * cx - a * cz) * (b * cx - a * cz) := mul_self_le_mul_self hnonneg hclear
  -- the distance along the row does not count
  have lagrange : (a * a + b * b) * ((cx + a * x) * (cx + a * x) + (cz + b * x) * (cz + b * x)) =
      (b * cx - a * cz) * (b * cx - a * cz) +
        (a * (cx + a * x) + b * (cz + b * x)) * (a * (cx + a * x) + b * (cz + b * x)) := by ring
  have := mul_self_nonneg (a * (cx + a * x) + b * (cz + b * x))
  refine le_of_mul_le_mul_left ?_ hpos
  linarith

theorem row_near {w w' u a : Int} (h : Rounded w' u a) (hu : |u| ≤ 256) (hw : |w| ≤ 256) {x : Int}
    (hx : 0 ≤ x) (hx' : x < 160) : |firstPixel w u a + a * x| ≤ 660 := by
  obtain ⟨l, u', -, -, -, -⟩ := h
  obtain ⟨ul, uu⟩ := abs_le.mp hu
  obtain ⟨wl, wu⟩ := abs_le.mp hw
  have al : -4 ≤ a := by omega
  have au : a ≤ 4 := by omega
  unfold firstPixel
  apply abs_le.mpr
  interval_cases a <;> omega

theorem upright {wx wz ux uz m s : Int} (hux : ux = wz * s / 256) (huz : uz = -wx * s / 256)
    (hm : m = wz * wz / 256 + wx * wx / 256) (unit : |wx| + |wz| ≤ 365) (hs : 0 ≤ s)
    (lower : 239 * 65536 ≤ s * (256 * m)) (upper : s * (256 * m + 510) ≤ 250 * 65536) :
    236 ≤ wz * ux / 256 - wx * uz / 256 ∧ wz * ux / 256 - wx * uz / 256 ≤ 254 := by
  obtain ⟨r, hr⟩ : ∃ r, r = wz * s - 256 * ux := ⟨_, rfl⟩
  obtain ⟨q, hq⟩ : ∃ q, q = -wx * s - 256 * uz := ⟨_, rfl⟩
  have hr0 : 0 ≤ r ∧ r ≤ 255 := by omega
  have hq0 : 0 ≤ q ∧ q ≤ 255 := by omega
  have hN : 256 * m ≤ wz * wz + wx * wx ∧ wz * wz + wx * wx ≤ 256 * m + 510 := by omega
  have hlow := mul_le_mul_of_nonneg_left hN.1 hs
  have hhigh := mul_le_mul_of_nonneg_left hN.2 hs
  have hsum : 256 * (wz * ux - wx * uz) = s * (wz * wz + wx * wx) - (wz * r - wx * q) := by
    rw [hr, hq]
    ring
  have small {v t : Int} (ht : 0 ≤ t ∧ t ≤ 255) : |v * t| ≤ |v| * 255 := by
    rw [abs_mul, abs_of_nonneg ht.1]
    exact mul_le_mul_of_nonneg_left ht.2 (abs_nonneg v)
  obtain ⟨sl, su⟩ := abs_le.mp (small (v := wz) hr0)
  obtain ⟨ql, qu⟩ := abs_le.mp (small (v := wx) hq0)
  omega

end FpgaCraft.Software
