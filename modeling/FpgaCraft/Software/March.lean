import FpgaCraft.Software.LevelCamera
import FpgaCraft.Software.Refinement
import FpgaCraft.Software.Setup

/-! ## A ray that never overflows

The axis that is stepped along has the smallest `t_max` of the three, which the axis
closest to the ray keeps small. -/
namespace FpgaCraft.Software
open Library

/-! ### Normalising the direction -/

/-- What a factor `s` does to vectors of squared magnitude `m`: no component grows beyond
259/256, and the longest one beyond 131/256. -/
structure Scale (m s : Nat) : Prop where
  short : 660 ≤ 66304 / s ∨ 256 * m + 255 < (66304 / s + 1) * (66304 / s + 1)
  long : 3 * (33536 * 33536) ≤ s * s * (256 * m)

instance (m s : Nat) : Decidable (Scale m s) :=
  decidable_of_iff ((660 ≤ 66304 / s ∨ 256 * m + 255 < (66304 / s + 1) * (66304 / s + 1)) ∧
    3 * (33536 * 33536) ≤ s * s * (256 * m)) ⟨fun h => ⟨h.1, h.2⟩, fun h => ⟨h.1, h.2⟩⟩

def rayEntries : List (Nat × Nat) :=
  [(5, 591), (6, 418), (7, 295), (8, 209), (9, 147), (10, 104), (11, 73)]

theorem rayEntries_eq : ∀ e ∈ rayEntries, Agreement.swEntry e.1 = e.2 := by decide +kernel

theorem rayEntries_short : ∀ e ∈ rayEntries, ∀ h < 2 ^ (e.1 - 5), ∀ l < 32,
    54 ≤ 2 ^ e.1 + 32 * h + l → 2 ^ e.1 + 32 * h + l < 4000 →
      660 ≤ 66304 / Agreement.newton e.2 (2 ^ e.1 + 32 * h + l) ∨
        256 * (2 ^ e.1 + 32 * h + l) + 255 <
          (66304 / Agreement.newton e.2 (2 ^ e.1 + 32 * h + l) + 1) *
            (66304 / Agreement.newton e.2 (2 ^ e.1 + 32 * h + l) + 1) := by
  decide +kernel

theorem rawInvSqrt_scale {m : Nat} (hm : 54 ≤ m) (hm' : m < 4000) :
    Scale m (Fixed.rawInvSqrt m) := by
  have low := Nat.log2_self_le (n := m) (by omega)
  have high := Nat.lt_log2_self (n := m)
  have hb : 5 ≤ m.log2 := (Nat.le_log2 (by omega)).mpr (by omega)
  have hb' : m.log2 < 12 := (Nat.log2_lt (by omega)).mpr (by omega)
  generalize hlog : m.log2 = b at low high hb hb'
  obtain ⟨entry, hmem⟩ : ∃ entry, (b, entry) ∈ rayEntries := by
    interval_cases b <;> simp [rayEntries]
  have hpow : 2 ^ (b + 1) = 2 ^ b + 2 ^ b := by rw [Nat.pow_succ]; omega
  have hsplit : 2 ^ b = 2 ^ (b - 5) * 32 := by
    rw [show (32 : Nat) = 2 ^ 5 from rfl, ← Nat.pow_add]
    congr 1
    omega
  have h := rayEntries_short _ hmem ((m - 2 ^ b) / 32) (by dsimp only; omega) ((m - 2 ^ b) % 32)
    (Nat.mod_lt _ (by norm_num))
  dsimp only at h
  rw [show 2 ^ b + 32 * ((m - 2 ^ b) / 32) + (m - 2 ^ b) % 32 = m by omega] at h
  refine ⟨?_, le_trans (by norm_num) (rawInvSqrt_long (by omega) (by omega))⟩
  rw [Fixed.rawInvSqrt, hlog, rayEntries_eq _ hmem]
  exact h hm hm'

/-- The components of a normalised ray: none is beyond what the reciprocal can take, and one
is long. -/
structure Normalised (n : Vec3) : Prop where
  x : |n.x.val| ≤ 259
  y : |n.y.val| ≤ 259
  z : |n.z.val| ≤ 259
  long : 131 ≤ |n.x.val| ∨ 131 ≤ |n.y.val| ∨ 131 ≤ |n.z.val|

theorem Aimed.normalized {d : Vec3} (h : Aimed d) :
    ∃ n, d.normalized = some n ∧ Normalised n := by
  obtain ⟨bx, bY, bz, far⟩ := h
  have square {c : Int} {k : Int} (hc : |c| ≤ k) : 0 ≤ c * c ∧ c * c ≤ k * k := by
    rw [← abs_mul_abs_self]
    exact ⟨mul_self_nonneg _, mul_self_le_mul_self (abs_nonneg c) hc⟩
  have sx := square bx
  have sy := square bY
  have sz := square bz
  obtain ⟨m, hm, n, hn, has⟩ := Vec3.normalized_of_small (a := d) ⟨rfl, rfl, rfl⟩
    (bx.trans (by norm_num)) (bY.trans (by norm_num)) (bz.trans (by norm_num)) (by omega)
  obtain ⟨short, long⟩ := rawInvSqrt_scale (m := m) (by omega) (by omega)
  generalize Fixed.rawInvSqrt m = s at has short long
  have long' : (3 * (33536 * 33536) : Int) ≤ s * s * (256 * m) := by exact_mod_cast long
  have scaled {c : Int} (hc : |c| ≤ 660) (hcm : c * c ≤ 256 * m + 255) : |c * s| ≤ 66304 := by
    have hnat : (c.natAbs : Int) = |c| := Int.natCast_natAbs c
    have hle : c.natAbs ≤ 66304 / s := by
      rcases short with hq | hq
      · omega
      · by_contra hgt
        have := Nat.mul_self_le_mul_self (show 66304 / s + 1 ≤ c.natAbs by omega)
        have hsq : ((c.natAbs * c.natAbs : Nat) : Int) = c * c := Int.natAbs_mul_self
        omega
    have := Nat.mul_le_of_le_div _ _ _ hle
    rw [abs_mul, Nat.abs_cast, ← hnat]
    exact_mod_cast this
  have inside {c r : Int} (h : |c * s| ≤ 66304) (hr : r = c * s / 256) : |r| ≤ 259 := by
    obtain ⟨hl, hu⟩ := abs_le.mp h
    exact abs_le.mpr (by omega)
  exact ⟨n, hn, inside (scaled bx (by omega)) has.x,
    inside (scaled (bY.trans (by norm_num)) (by omega)) has.y, inside (scaled bz (by omega)) has.z,
    main_of_scaled has.x has.y has.z (by omega) long'⟩

/-! ### The setup of a ray -/

theorem recip_of_normalised {c : Fixed} (h : |c.val| ≤ 259) :
    ∃ r t, Fixed.recipLte1 c = some r ∧ Fixed.abs r = some t ∧ 0 ≤ t.val ∧ t.val ≤ 16384 ∧
      (131 ≤ |c.val| → t.val ≤ 600) := by
  obtain ⟨r, hr, paced⟩ := recip_of_short h
  have small : |r.val| ≤ 16384 := by
    by_cases still : c.val = 0
    · rw [paced.still still]
      norm_num
    · exact (paced.range still).2
  obtain ⟨t, ht, vt⟩ := Fixed.abs_of_fits (a := r) (fits_of_abs_le (by rw [abs_abs]; omega))
  rw [← vt] at small paced
  exact ⟨r, t, hr, ht, vt ▸ abs_nonneg _, small, fun long => (paced.main long).1⟩

theorem distOf_of_inWorld {o : Fixed} (h : |o.val| ≤ 512000) (d : Fixed) :
    ∃ r, RaySetup.distOf (RaySetup.stepOf d) o o.floor = some r ∧ 0 ≤ r.val ∧ r.val ≤ 256 := by
  obtain ⟨hl, hu⟩ := abs_le.mp h
  have hfloor := o.val_floor
  obtain ⟨corner, hcorner, vcorner⟩ := Fixed.ofI16_of_fits (p := o.floor) (by unfold Fits; omega)
  unfold RaySetup.distOf
  split
  · have hone : Fixed.one.val = 256 := rfl
    obtain ⟨left, hleft, vleft⟩ := Fixed.sub_of_fits (a := Fixed.one) (b := o) (by unfold Fits; omega)
    obtain ⟨r, hr, vr⟩ := Fixed.add_of_fits (a := left) (b := corner) (by unfold Fits; omega)
    exact ⟨r, bind_some hleft (bind_some hcorner hr), by omega, by omega⟩
  · obtain ⟨r, hr, vr⟩ := Fixed.sub_of_fits (a := o) (b := corner) (by unfold Fits; omega)
    exact ⟨r, bind_some hcorner hr, by omega, by omega⟩

theorem tMaxOf_of_small {d t dist : Fixed} (ht : 0 ≤ t.val) (ht' : t.val ≤ 16384)
    (hd : 0 ≤ dist.val) (hd' : dist.val ≤ 256) :
    ∃ r, RaySetup.tMaxOf d t dist = some r ∧ (131 ≤ |d.val| → r.val ≤ t.val) := by
  unfold RaySetup.tMaxOf
  split
  · have hle : t.val * dist.val ≤ t.val * 256 := mul_le_mul_of_nonneg_left hd' ht
    have hnonneg := mul_nonneg ht hd
    obtain ⟨r, hr, vr⟩ := Fixed.mul_of_fits (a := t) (b := dist) (by unfold Fits; omega)
    exact ⟨r, hr, fun _ => by omega⟩
  · rename_i hzero
    refine ⟨Fixed.MAX, rfl, fun hlong => ?_⟩
    rw [not_not.mp hzero, abs_zero] at hlong
    omega

structure Marching (step : Vec3i) (tDelta : Vec3) (w : Walk) (n : Nat) : Prop where
  position : |w.position.x.val| ≤ 2000 + n ∧ |w.position.y.val| ≤ 2000 + n ∧
    |w.position.z.val| ≤ 2000 + n
  step : |step.x.val| ≤ 1 ∧ |step.y.val| ≤ 1 ∧ |step.z.val| ≤ 1
  forward : 0 ≤ tDelta.x.val ∧ 0 ≤ tDelta.y.val ∧ 0 ≤ tDelta.z.val
  delta : tDelta.x.val ≤ 16384 ∧ tDelta.y.val ≤ 16384 ∧ tDelta.z.val ≤ 16384
  main : tDelta.x.val ≤ 600 ∧ w.tMax.x.val ≤ 600 * (n + 1) ∨
    tDelta.y.val ≤ 600 ∧ w.tMax.y.val ≤ 600 * (n + 1) ∨
    tDelta.z.val ≤ 600 ∧ w.tMax.z.val ≤ 600 * (n + 1)

theorem stepOf_le_one (d : Fixed) : |(RaySetup.stepOf d).val| ≤ 1 := by
  rcases stepOf_unit d with h | h <;> rw [h] <;> norm_num

structure Prepared (n tDelta tMax : Fixed) : Prop where
  forward : 0 ≤ tDelta.val
  delta : tDelta.val ≤ 16384
  long : 131 ≤ |n.val| → tDelta.val ≤ 600 ∧ tMax.val ≤ tDelta.val

theorem raySetup_of_short {origin direction n : Vec3} (ho : InWorld origin)
    (hn : direction.normalized = some n) (nx : |n.x.val| ≤ 259) (ny : |n.y.val| ≤ 259)
    (nz : |n.z.val| ≤ 259) :
    ∃ setup, raySetup origin direction = some setup ∧ setup.rayPosition = origin.floor ∧
      setup.rayStep = ⟨RaySetup.stepOf n.x, RaySetup.stepOf n.y, RaySetup.stepOf n.z⟩ ∧
      Prepared n.x setup.rayTDelta.x setup.rayTMax.x ∧
      Prepared n.y setup.rayTDelta.y setup.rayTMax.y ∧
      Prepared n.z setup.rayTDelta.z setup.rayTMax.z := by
  obtain ⟨ox, oy, oz⟩ := ho
  obtain ⟨rx, tx, hrx, htx, tx0, txm, txs⟩ := recip_of_normalised nx
  obtain ⟨ry, ty, hry, hty, ty0, tym, tys⟩ := recip_of_normalised ny
  obtain ⟨rz, tz, hrz, htz, tz0, tzm, tzs⟩ := recip_of_normalised nz
  obtain ⟨dx, hdx, dx0, dx1⟩ := distOf_of_inWorld ox n.x
  obtain ⟨dy, hdy, dy0, dy1⟩ := distOf_of_inWorld oy n.y
  obtain ⟨dz, hdz, dz0, dz1⟩ := distOf_of_inWorld oz n.z
  obtain ⟨mx, hmx, mxs⟩ := tMaxOf_of_small (d := n.x) tx0 txm dx0 dx1
  obtain ⟨my, hmy, mys⟩ := tMaxOf_of_small (d := n.y) ty0 tym dy0 dy1
  obtain ⟨mz, hmz, mzs⟩ := tMaxOf_of_small (d := n.z) tz0 tzm dz0 dz1
  exact ⟨_, bind_some hn (bind_some hrx (bind_some htx (bind_some hry (bind_some hty
    (bind_some hrz (bind_some htz (bind_some hdx (bind_some hdy (bind_some hdz (bind_some hmx
      (bind_some hmy (bind_some hmz rfl)))))))))))), rfl, rfl,
    ⟨tx0, txm, fun h => ⟨txs h, mxs h⟩⟩, ⟨ty0, tym, fun h => ⟨tys h, mys h⟩⟩,
    ⟨tz0, tzm, fun h => ⟨tzs h, mzs h⟩⟩⟩

theorem raySetup_of_normalised {origin direction n : Vec3} (ho : InWorld origin)
    (hn : direction.normalized = some n) (normalised : Normalised n) :
    ∃ setup, raySetup origin direction = some setup ∧
      Marching setup.rayStep setup.rayTDelta ⟨setup.rayPosition, setup.rayTMax⟩ 0 := by
  obtain ⟨nx, ny, nz, long⟩ := normalised
  obtain ⟨setup, hsetup, position, step, px, py, pz⟩ := raySetup_of_short ho hn nx ny nz
  obtain ⟨ox, oy, oz⟩ := ho
  have floor {o : Fixed} (h : |o.val| ≤ 512000) : |o.floor.val| ≤ 2000 + (0 : Nat) := by
    obtain ⟨hl, hu⟩ := abs_le.mp h
    have := o.val_floor
    exact abs_le.mpr (by omega)
  have main {c tDelta tMax : Fixed} (prepared : Prepared c tDelta tMax) (h : 131 ≤ |c.val|) :
      tDelta.val ≤ 600 ∧ tMax.val ≤ 600 * ((0 : Nat) + 1) := by
    obtain ⟨delta, first⟩ := prepared.long h
    omega
  refine ⟨setup, hsetup, ?_, ?_, ⟨px.forward, py.forward, pz.forward⟩, ⟨px.delta, py.delta, pz.delta⟩, ?_⟩
  · rw [position]
    exact ⟨floor ox, floor oy, floor oz⟩
  · rw [step]
    exact ⟨stepOf_le_one _, stepOf_le_one _, stepOf_le_one _⟩
  · rcases long with h | h | h
    · exact .inl (main px h)
    · exact .inr (.inl (main py h))
    · exact .inr (.inr (main pz h))

theorem raySetup_of_aimed {origin direction : Vec3} (ho : InWorld origin) (hd : Aimed direction) :
    ∃ setup, raySetup origin direction = some setup ∧
      Marching setup.rayStep setup.rayTDelta ⟨setup.rayPosition, setup.rayTMax⟩ 0 := by
  obtain ⟨n, hn, normalised⟩ := hd.normalized
  exact raySetup_of_normalised ho hn normalised

/-! ### The walk -/

theorem axis_least (w : Walk) :
    (w.axis = .x → w.tMax.x.val ≤ w.tMax.y.val ∧ w.tMax.x.val ≤ w.tMax.z.val) ∧
      (w.axis = .y → w.tMax.y.val ≤ w.tMax.x.val ∧ w.tMax.y.val ≤ w.tMax.z.val) ∧
      (w.axis = .z → w.tMax.z.val ≤ w.tMax.x.val ∧ w.tMax.z.val ≤ w.tMax.y.val) := by
  unfold Walk.axis
  split_ifs <;> simp only [false_imp_iff, true_imp_iff, true_and, and_true] <;> omega

theorem i16_of_near (profile : Profile) {p s : I16} {n : Nat} (hp : |p.val| ≤ 2000 + n)
    (hs : |s.val| ≤ 1) (hn : n ≤ 111) :
    ∃ q, profile.i16 (p.val + s.val) = some q ∧ |q.val| ≤ 2000 + (n + 1 : Nat) := by
  obtain ⟨pl, pu⟩ := abs_le.mp hp
  obtain ⟨sl, su⟩ := abs_le.mp hs
  obtain ⟨q, hq, vq⟩ := profile.i16_of_range (v := p.val + s.val) (by omega) (by omega)
  exact ⟨q, hq, abs_le.mpr (by omega)⟩

theorem add_of_least {t delta : Fixed} {n : Nat} (ht : t.val ≤ 600 * (n + 1)) (hn : n ≤ 111)
    (forward : 0 ≤ delta.val) (hdelta : delta.val ≤ 16384) :
    ∃ r, Fixed.add t delta = some r ∧ r.val = t.val + delta.val := by
  have := t.range
  exact Fixed.add_of_fits (by unfold Fits; omega)

theorem Marching.advance {step : Vec3i} {tDelta : Vec3} {w : Walk} {n : Nat}
    (h : Marching step tDelta w n) (profile : Profile) (hn : n ≤ 111) :
    ∃ w' axis, w.advance profile step tDelta = some (w', axis) ∧
      Marching step tDelta w' (n + 1) := by
  obtain ⟨⟨px, py, pz⟩, ⟨sx, sy, sz⟩, ⟨fx, fy, fz⟩, ⟨dx, dy, dz⟩, main⟩ := h
  obtain ⟨leastX, leastY, leastZ⟩ := axis_least w
  have stay {p : I16} (h : |p.val| ≤ 2000 + n) : |p.val| ≤ 2000 + (n + 1 : Nat) := by
    push_cast
    omega
  unfold Walk.advance
  cases haxis : w.axis with
  | none => exact (axis_ne_none w haxis).elim
  | x =>
    obtain ⟨hy, hz⟩ := leastX haxis
    obtain ⟨q, hq, near⟩ := i16_of_near profile px sx hn
    obtain ⟨t, ht, vt⟩ := add_of_least (n := n) (t := w.tMax.x) (by omega) hn fx dx
    refine ⟨_, _, bind_some hq (bind_some ht rfl), ⟨near, stay py, stay pz⟩, ⟨sx, sy, sz⟩,
      ⟨fx, fy, fz⟩, ⟨dx, dy, dz⟩, ?_⟩
    push_cast
    omega
  | y =>
    obtain ⟨hx, hz⟩ := leastY haxis
    obtain ⟨q, hq, near⟩ := i16_of_near profile py sy hn
    obtain ⟨t, ht, vt⟩ := add_of_least (n := n) (t := w.tMax.y) (by omega) hn fy dy
    refine ⟨_, _, bind_some hq (bind_some ht rfl), ⟨stay px, near, stay pz⟩, ⟨sx, sy, sz⟩,
      ⟨fx, fy, fz⟩, ⟨dx, dy, dz⟩, ?_⟩
    push_cast
    omega
  | z =>
    obtain ⟨hx, hy⟩ := leastZ haxis
    obtain ⟨q, hq, near⟩ := i16_of_near profile pz sz hn
    obtain ⟨t, ht, vt⟩ := add_of_least (n := n) (t := w.tMax.z) (by omega) hn fz dz
    refine ⟨_, _, bind_some hq (bind_some ht rfl), ⟨stay px, stay py, near⟩, ⟨sx, sy, sz⟩,
      ⟨fx, fy, fz⟩, ⟨dx, dy, dz⟩, ?_⟩
    push_cast
    omega

end FpgaCraft.Software
