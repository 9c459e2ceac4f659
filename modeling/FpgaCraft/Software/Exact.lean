import FpgaCraft.Agreement.Newton

/-! The checked operations on raw integers: each one succeeds with the exact result as
long as that fits. -/
namespace FpgaCraft.Software
open Library

def Fits (value : Int) : Prop := -524288 ≤ value ∧ value < 524288

instance (value : Int) : Decidable (Fits value) := by unfold Fits; infer_instance

theorem fits_of_abs_le {value : Int} (h : |value| ≤ 524287) : Fits value := by
  obtain ⟨hl, hu⟩ := abs_le.mp h
  unfold Fits
  omega

namespace Fixed
variable {a b : Fixed}

theorem new_of_fits {value : Int} (h : Fits value) :
    ∃ r : Fixed, Signed.new value = some r ∧ r.val = value :=
  Signed.new_of_range (by norm_num; exact h.1) (by norm_num; exact h.2)

theorem add_of_fits (h : Fits (a.val + b.val)) : ∃ r, add a b = some r ∧ r.val = a.val + b.val :=
  new_of_fits h

theorem sub_of_fits (h : Fits (a.val - b.val)) : ∃ r, sub a b = some r ∧ r.val = a.val - b.val :=
  new_of_fits h

theorem neg_of_fits (h : Fits (-a.val)) : ∃ r, neg a = some r ∧ r.val = -a.val :=
  new_of_fits h

theorem abs_of_fits (h : Fits |a.val|) : ∃ r, abs a = some r ∧ r.val = |a.val| :=
  new_of_fits h

theorem mul_of_fits (h : Fits (a.val * b.val / 256)) :
    ∃ r, mul a b = some r ∧ r.val = a.val * b.val / 256 := by
  have hshift : (a.val * b.val) >>> D = a.val * b.val / 256 := by
    rw [Int.shiftRight_eq_div_pow]
    norm_num
  rw [mul, hshift]
  exact new_of_fits h

theorem ofI16_of_fits {p : I16} (h : Fits (p.val * 256)) :
    ∃ r, ofI16 p = some r ∧ r.val = p.val * 256 := by
  rw [ofI16]
  norm_num
  exact new_of_fits h

theorem val_floor (a : Fixed) : a.floor.val = a.val / 256 := by
  change a.val >>> D = _
  rw [Int.shiftRight_eq_div_pow]
  norm_num

def rawInvSqrt (m : Nat) : Nat := Agreement.newton (Agreement.swEntry m.log2) m

theorem invSqrt_of_pos {m : Nat} (hpos : 0 < m) (ha : a.val = m) :
    ∃ r, invSqrt a = some r ∧ r.val = rawInvSqrt m := by
  have hrange := a.range
  have hlt : m.log2 < 19 := (Nat.log2_lt hpos.ne').mpr (by norm_num; omega)
  exact Agreement.invSqrt_of_octave ha (Nat.log2_self_le hpos.ne') Nat.lt_log2_self hlt

end Fixed

namespace Vec3

structure Has (v : Vec3) (x y z : Int) : Prop where
  x : v.x.val = x
  y : v.y.val = y
  z : v.z.val = z

variable {a b : Vec3} {x y z x' y' z' : Int}

theorem add_of_fits (ha : a.Has x y z) (hb : b.Has x' y' z') (fx : Fits (x + x'))
    (fy : Fits (y + y')) (fz : Fits (z + z')) :
    ∃ r, a.add b = some r ∧ r.Has (x + x') (y + y') (z + z') := by
  obtain ⟨rfl, rfl, rfl⟩ := ha
  obtain ⟨rfl, rfl, rfl⟩ := hb
  obtain ⟨rx, hx, vx⟩ := Fixed.add_of_fits fx
  obtain ⟨ry, hy, vy⟩ := Fixed.add_of_fits fy
  obtain ⟨rz, hz, vz⟩ := Fixed.add_of_fits fz
  exact ⟨⟨rx, ry, rz⟩, by simp [add, hx, hy, hz], vx, vy, vz⟩

theorem sub_of_fits (ha : a.Has x y z) (hb : b.Has x' y' z') (fx : Fits (x - x'))
    (fy : Fits (y - y')) (fz : Fits (z - z')) :
    ∃ r, a.sub b = some r ∧ r.Has (x - x') (y - y') (z - z') := by
  obtain ⟨rfl, rfl, rfl⟩ := ha
  obtain ⟨rfl, rfl, rfl⟩ := hb
  obtain ⟨rx, hx, vx⟩ := Fixed.sub_of_fits fx
  obtain ⟨ry, hy, vy⟩ := Fixed.sub_of_fits fy
  obtain ⟨rz, hz, vz⟩ := Fixed.sub_of_fits fz
  exact ⟨⟨rx, ry, rz⟩, by simp [sub, hx, hy, hz], vx, vy, vz⟩

theorem neg_of_fits (ha : a.Has x y z) (fx : Fits (-x)) (fy : Fits (-y)) (fz : Fits (-z)) :
    ∃ r, a.neg = some r ∧ r.Has (-x) (-y) (-z) := by
  obtain ⟨rfl, rfl, rfl⟩ := ha
  obtain ⟨rx, hx, vx⟩ := Fixed.neg_of_fits fx
  obtain ⟨ry, hy, vy⟩ := Fixed.neg_of_fits fy
  obtain ⟨rz, hz, vz⟩ := Fixed.neg_of_fits fz
  exact ⟨⟨rx, ry, rz⟩, by simp [neg, hx, hy, hz], vx, vy, vz⟩

theorem mul_of_fits {s : Fixed} {k : Int} (ha : a.Has x y z) (hs : s.val = k)
    (fx : Fits (x * k / 256)) (fy : Fits (y * k / 256)) (fz : Fits (z * k / 256)) :
    ∃ r, a.mul s = some r ∧ r.Has (x * k / 256) (y * k / 256) (z * k / 256) := by
  obtain ⟨rfl, rfl, rfl⟩ := ha
  obtain rfl := hs
  obtain ⟨rx, hx, vx⟩ := Fixed.mul_of_fits fx
  obtain ⟨ry, hy, vy⟩ := Fixed.mul_of_fits fy
  obtain ⟨rz, hz, vz⟩ := Fixed.mul_of_fits fz
  exact ⟨⟨rx, ry, rz⟩, by simp [mul, hx, hy, hz], vx, vy, vz⟩

theorem magnitudeSquared_of_small (ha : a.Has x y z) (bx : |x| ≤ 2048) (bY : |y| ≤ 2048)
    (bz : |z| ≤ 2048) :
    ∃ m : Nat, (m : Int) = x * x / 256 + y * y / 256 + z * z / 256 ∧
      ∃ r, a.magnitudeSquared = some r ∧ r.val = m := by
  obtain ⟨rfl, rfl, rfl⟩ := ha
  have square {c : Int} (h : |c| ≤ 2048) : 0 ≤ c * c / 256 ∧ c * c / 256 ≤ 16384 := by
    have hle : c * c ≤ 2048 * 2048 := by
      rw [← abs_mul_abs_self]
      exact mul_le_mul h h (abs_nonneg c) (by norm_num)
    have hnonneg := mul_self_nonneg c
    omega
  have sx := square bx
  have sy := square bY
  have sz := square bz
  obtain ⟨xx, hxx, vxx⟩ := Fixed.mul_of_fits (a := a.x) (b := a.x) (by unfold Fits; omega)
  obtain ⟨yy, hyy, vyy⟩ := Fixed.mul_of_fits (a := a.y) (b := a.y) (by unfold Fits; omega)
  obtain ⟨zz, hzz, vzz⟩ := Fixed.mul_of_fits (a := a.z) (b := a.z) (by unfold Fits; omega)
  obtain ⟨xy, hxy, vxy⟩ := Fixed.add_of_fits (a := xx) (b := yy) (by unfold Fits; omega)
  obtain ⟨r, hr, vr⟩ := Fixed.add_of_fits (a := xy) (b := zz) (by unfold Fits; omega)
  refine ⟨(a.x.val * a.x.val / 256 + a.y.val * a.y.val / 256 + a.z.val * a.z.val / 256).toNat,
    by omega, r, ?_, by omega⟩
  simp [magnitudeSquared, hxx, hyy, hzz, hxy, hr]

/-- A vector of that size is normalised unless its squared magnitude rounds to zero. -/
theorem normalized_of_small (ha : a.Has x y z) (bx : |x| ≤ 2048) (bY : |y| ≤ 2048)
    (bz : |z| ≤ 2048) (pos : 0 < x * x / 256 + y * y / 256 + z * z / 256) :
    ∃ m : Nat, (m : Int) = x * x / 256 + y * y / 256 + z * z / 256 ∧
      ∃ r, a.normalized = some r ∧
        r.Has (x * Fixed.rawInvSqrt m / 256) (y * Fixed.rawInvSqrt m / 256)
          (z * Fixed.rawInvSqrt m / 256) := by
  obtain ⟨m, hm, magnitude, hmagnitude, vm⟩ := magnitudeSquared_of_small ha bx bY bz
  have hlt : m.log2 < 19 := by
    have := magnitude.range
    exact (Nat.log2_lt (by omega)).mpr (by norm_num; omega)
  have hs : Fixed.rawInvSqrt m ≤ 6144 :=
    Agreement.newton_lt (Agreement.swEntry_inRange m.log2 hlt) m
  obtain ⟨s, hinv, vs⟩ := Fixed.invSqrt_of_pos (by omega) vm
  have scaled {c : Int} (h : |c| ≤ 2048) : Fits (c * Fixed.rawInvSqrt m / 256) := by
    have hle : |c * Fixed.rawInvSqrt m| ≤ 2048 * 6144 := by
      rw [abs_mul, Nat.abs_cast]
      exact mul_le_mul h (by exact_mod_cast hs) (by positivity) (by norm_num)
    obtain ⟨hl, hu⟩ := abs_le.mp hle
    unfold Fits
    omega
  obtain ⟨r, hr, has⟩ := mul_of_fits ha vs (scaled bx) (scaled bY) (scaled bz)
  exact ⟨m, hm, r, by simp [normalized, hmagnitude, hinv, hr], has⟩

theorem cross_of_small (ha : a.Has x y z) (hb : b.Has x' y' z')
    (ba : |x| ≤ 512 ∧ |y| ≤ 512 ∧ |z| ≤ 512) (bb : |x'| ≤ 512 ∧ |y'| ≤ 512 ∧ |z'| ≤ 512) :
    ∃ r, a.cross b = some r ∧ r.Has (y * z' / 256 - z * y' / 256) (z * x' / 256 - x * z' / 256)
      (x * y' / 256 - y * x' / 256) := by
  obtain ⟨rfl, rfl, rfl⟩ := ha
  obtain ⟨rfl, rfl, rfl⟩ := hb
  obtain ⟨bx, bY, bz⟩ := ba
  obtain ⟨bx', bY', bz'⟩ := bb
  have product {c d : Int} (hc : |c| ≤ 512) (hd : |d| ≤ 512) :
      -1024 ≤ c * d / 256 ∧ c * d / 256 ≤ 1024 := by
    have hle : |c * d| ≤ 512 * 512 := by
      rw [abs_mul]
      exact mul_le_mul hc hd (abs_nonneg d) (by norm_num)
    obtain ⟨hl, hu⟩ := abs_le.mp hle
    omega
  have fits {c d e f : Int} (hc : |c| ≤ 512) (hd : |d| ≤ 512) (he : |e| ≤ 512) (hf : |f| ≤ 512) :
      Fits (c * d / 256) ∧ Fits (c * d / 256 - e * f / 256) := by
    have := product hc hd
    have := product he hf
    unfold Fits
    omega
  have component {c d e f : Fixed} (hc : |c.val| ≤ 512) (hd : |d.val| ≤ 512) (he : |e.val| ≤ 512)
      (hf : |f.val| ≤ 512) : ∃ p q r, Fixed.mul c d = some p ∧ Fixed.mul e f = some q ∧
        Fixed.sub p q = some r ∧ r.val = c.val * d.val / 256 - e.val * f.val / 256 := by
    obtain ⟨p, hp, vp⟩ := Fixed.mul_of_fits (fits hc hd he hf).1
    obtain ⟨q, hq, vq⟩ := Fixed.mul_of_fits (fits he hf hc hd).1
    obtain ⟨r, hr, vr⟩ := Fixed.sub_of_fits (a := p) (b := q) (by
      rw [vp, vq]
      exact (fits hc hd he hf).2)
    exact ⟨p, q, r, hp, hq, hr, by rw [vr, vp, vq]⟩
  obtain ⟨p₁, q₁, rx, hp₁, hq₁, hx, vx⟩ := component bY bz' bz bY'
  obtain ⟨p₂, q₂, ry, hp₂, hq₂, hy, vy⟩ := component bz bx' bx bz'
  obtain ⟨p₃, q₃, rz, hp₃, hq₃, hz, vz⟩ := component bx bY' bY bx'
  exact ⟨⟨rx, ry, rz⟩, by simp [cross, hp₁, hq₁, hx, hp₂, hq₂, hy, hp₃, hq₃, hz], vx, vy, vz⟩

end Vec3
end FpgaCraft.Software
