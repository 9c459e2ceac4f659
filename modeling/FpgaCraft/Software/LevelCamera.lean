import FpgaCraft.Software.Sight

/-! ## The camera of a level heading

Its position is at most 2000 from the origin along each axis, and its heading horizontal
and of about unit length. -/
namespace FpgaCraft.Software
open Library

structure CameraIn.Level (i : CameraIn) : Prop where
  posX : |i.cameraPosIn.x.val| ≤ 2000 * 256
  posY : |i.cameraPosIn.y.val| ≤ 2000 * 256
  posZ : |i.cameraPosIn.z.val| ≤ 2000 * 256
  horizontal : i.cameraHeadingIn.y.val = 0
  lower : 250 ^ 2 ≤ i.cameraHeadingIn.x.val ^ 2 + i.cameraHeadingIn.z.val ^ 2
  upper : i.cameraHeadingIn.x.val ^ 2 + i.cameraHeadingIn.z.val ^ 2 ≤ 262 ^ 2

def InWorld (p : Vec3) : Prop :=
  |p.x.val| ≤ 512000 ∧ |p.y.val| ≤ 512000 ∧ |p.z.val| ≤ 512000

/-- A camera by the offset of its first pixel and the steps from pixel to pixel. -/
structure Framed (camera : Camera) (cx cy cz a b : Int) : Prop where
  inWorld : InWorld camera.cameraPos
  first : camera.pixel0Loc.Has (camera.cameraPos.x.val + cx) (camera.cameraPos.y.val + cy)
    (camera.cameraPos.z.val + cz)
  deltaU : camera.pixelDeltaU.Has a 0 b
  deltaV : camera.pixelDeltaV.Has 0 (-4) 0
  height : 234 ≤ cy ∧ cy ≤ 252
  near : ∀ x, 0 ≤ x → x < 160 → |cx + a * x| ≤ 660 ∧ |cz + b * x| ≤ 660
  far : ∀ x, 14080 ≤ (cx + a * x) * (cx + a * x) + (cz + b * x) * (cz + b * x)

structure LevelBasis (w u : Vec3) (wx wz ux uz : Int) : Prop where
  w : w.Has wx 0 wz
  u : u.Has ux 0 uz
  shortX : |wx| ≤ 256
  shortZ : |wz| ≤ 256
  unit : Unit2 ux uz 61270 66030
  roundedX : ∀ a, a = ux * 4 / 256 → Rounded wz ux a
  roundedZ : ∀ b, b = uz * 4 / 256 → Rounded (-wx) uz b
  upright : 236 ≤ wz * ux / 256 - wx * uz / 256 ∧ wz * ux / 256 - wx * uz / 256 ≤ 254

theorem unit2_of_entry {p q : Int} {m s L X : Nat}
    (hm : (m : Int) = p * p / 256 + 0 * 0 / 256 + q * q / 256)
    (lower : L * 65536 ≤ s * s * (256 * m)) (upper : s * s * (256 * m + 510) ≤ X * 65536)
    (hX : X ≤ 65300) : Unit2 (p * s / 256) (q * s / 256) (L - 730) (X + 730) := by
  have hlow : 256 * (m : Int) ≤ p * p + q * q := by omega
  have hhigh : p * p + q * q ≤ 256 * (m : Int) + 510 := by omega
  have hs : (0 : Int) ≤ s * s := mul_self_nonneg _
  have hl := mul_le_mul_of_nonneg_left hlow hs
  have hu := mul_le_mul_of_nonneg_left hhigh hs
  have lower' : (L : Int) * 65536 ≤ s * s * (256 * m) := by exact_mod_cast lower
  have upper' : (s : Int) * s * (256 * m + 510) ≤ X * 65536 := by exact_mod_cast upper
  exact unit2_of_scaled rfl rfl (by linarith) (by linarith) (by exact_mod_cast hX)

theorem levelBasis_of_heading {heading : Vec3} (horizontal : heading.y.val = 0)
    (lower : 250 ^ 2 ≤ heading.x.val ^ 2 + heading.z.val ^ 2)
    (upper : heading.x.val ^ 2 + heading.z.val ^ 2 ≤ 262 ^ 2) :
    ∃ w up u wx wz ux uz, heading.normalized = some w ∧ Vec3.UP.cross w = some up ∧
      up.normalized = some u ∧ LevelBasis w u wx wz ux uz := by
  simp only [sq] at lower upper
  have sqx := mul_self_nonneg heading.x.val
  have sqz := mul_self_nonneg heading.z.val
  have hx : |heading.x.val| ≤ 262 := abs_le_of_mul_self (by norm_num) (by linarith)
  have hz : |heading.z.val| ≤ 262 := abs_le_of_mul_self (by norm_num) (by linarith)
  have hheading : heading.Has heading.x.val 0 heading.z.val := ⟨rfl, horizontal, rfl⟩
  obtain ⟨m, hm, w, hw, wHas⟩ := Vec3.normalized_of_small hheading (hx.trans (by norm_num))
    (by norm_num) (hz.trans (by norm_num)) (by omega)
  obtain ⟨tl, tu⟩ := heading_table m (by omega) (by omega)
  have wUnit := unit2_of_entry hm tl tu (by norm_num)
  generalize heading.x.val * (Fixed.rawInvSqrt m : Int) / 256 = wx at wHas wUnit
  generalize heading.z.val * (Fixed.rawInvSqrt m : Int) / 256 = wz at wHas wUnit
  rw [Int.zero_mul, Int.zero_ediv] at wHas
  have upHas : Vec3.UP.Has 0 256 0 := ⟨rfl, rfl, rfl⟩
  obtain ⟨up, hup, crossHas⟩ := Vec3.cross_of_small upHas wHas (by norm_num)
    ⟨wUnit.shortX.trans (by norm_num), by norm_num, wUnit.shortZ.trans (by norm_num)⟩
  have hcross : up.Has wz 0 (-wx) := by
    obtain ⟨vx, vy, vz⟩ := crossHas
    exact ⟨by omega, by omega, by omega⟩
  obtain ⟨wLower, wUpper, shortX, shortZ, taxi⟩ := wUnit
  obtain ⟨n, hn, u, hu, uHas⟩ := Vec3.normalized_of_small hcross (shortZ.trans (by norm_num))
    (by norm_num) (by rw [abs_neg]; exact shortX.trans (by norm_num)) (by rw [neg_mul_neg]; omega)
  have hn' := hn
  rw [neg_mul_neg] at hn'
  obtain ⟨sl, su, bl, bu, vl, vu⟩ := basis_table n (by omega) (by omega)
  have uUnit := unit2_of_entry hn bl bu (by norm_num)
  refine ⟨w, up, u, wx, wz, _, _, hw, hup, hu, wHas, ?_, shortX, shortZ, uUnit, fun a ha => ?_,
    fun b hb => ?_, ?_⟩
  · rw [Int.zero_mul, Int.zero_ediv] at uHas
    exact uHas
  · exact rounded_of_scaled (by exact_mod_cast sl) (by exact_mod_cast su) rfl ha
  · exact rounded_of_scaled (by exact_mod_cast sl) (by exact_mod_cast su) rfl hb
  · exact upright (m := n) rfl rfl (by omega) taxi (by positivity) (by exact_mod_cast vl)
      (by exact_mod_cast vu)

theorem bind_some {α β : Type} {x : Option α} {f : α → Option β} {a : α} {b : β} (h : x = some a)
    (hf : f a = some b) : (x >>= f) = some b := by
  rw [h]
  exact hf

theorem fits_of_range {c : Int} (h : -523000 ≤ c) (h' : c ≤ 523000) : Fits c := ⟨by omega, by omega⟩

theorem half_of_parts {a b : Vec3} {x y z : Int} (ha : a.Has x 0 z) (hb : b.Has 0 y 0)
    (bx : |x| ≤ 1000) (bY : |y| ≤ 1000) (bz : |z| ≤ 1000) :
    ∃ sum half, a.add b = some sum ∧ sum.mul ⟨128, by decide, by decide⟩ = some half ∧
      half.Has (x * 128 / 256) (y * 128 / 256) (z * 128 / 256) := by
  obtain ⟨xl, xu⟩ := abs_le.mp bx
  obtain ⟨yl, yu⟩ := abs_le.mp bY
  obtain ⟨zl, zu⟩ := abs_le.mp bz
  obtain ⟨sum, hsum, sumHas⟩ := Vec3.add_of_fits ha hb (fits_of_range (by omega) (by omega))
    (fits_of_range (by omega) (by omega)) (fits_of_range (by omega) (by omega))
  simp only [add_zero, zero_add] at sumHas
  obtain ⟨half, hhalf, halfHas⟩ := Vec3.mul_of_fits (k := 128) (s := ⟨128, by decide, by decide⟩)
    sumHas rfl (fits_of_range (by omega) (by omega)) (fits_of_range (by omega) (by omega))
    (fits_of_range (by omega) (by omega))
  exact ⟨sum, half, hsum, hhalf, halfHas⟩

theorem horizontal_mul {u : Vec3} {ux uz k : Int} {s : Fixed} (hu : u.Has ux 0 uz) (hs : s.val = k)
    (small : 0 ≤ k ∧ k ≤ 640) (bx : |ux| ≤ 256) (bz : |uz| ≤ 256) :
    ∃ r, u.mul s = some r ∧ r.Has (ux * k / 256) 0 (uz * k / 256) ∧ |ux * k / 256| ≤ 640 ∧
      |uz * k / 256| ≤ 640 := by
  have short {c : Int} (h : |c| ≤ 256) : |c * k / 256| ≤ 640 := by
    obtain ⟨hl, hu⟩ := abs_le.mp h
    have low := mul_le_mul_of_nonneg_right hl small.1
    have high := mul_le_mul_of_nonneg_right hu small.1
    exact abs_le.mpr (by omega)
  obtain ⟨xl, xu⟩ := abs_le.mp (short bx)
  obtain ⟨zl, zu⟩ := abs_le.mp (short bz)
  obtain ⟨r, hr, has⟩ := Vec3.mul_of_fits hu hs (fits_of_range (by omega) (by omega))
    (by rw [Int.zero_mul]; decide) (fits_of_range (by omega) (by omega))
  rw [Int.zero_mul, Int.zero_ediv] at has
  exact ⟨r, hr, has, short bx, short bz⟩

/-- From the position one unit back, half a viewport up and left, and half a pixel in. -/
theorem pixel0_of_basis {pos w halfway centre : Vec3} {px py pz wx wz hx hy hz cx cy cz : Int}
    (hpos : pos.Has px py pz) (inWorld : |px| ≤ 512000 ∧ |py| ≤ 512000 ∧ |pz| ≤ 512000)
    (hw : w.Has wx 0 wz) (bw : |wx| ≤ 256 ∧ |wz| ≤ 256) (hhalfway : halfway.Has hx hy hz)
    (bh : |hx| ≤ 1000 ∧ |hy| ≤ 1000 ∧ |hz| ≤ 1000) (hcentre : centre.Has cx cy cz)
    (bc : |cx| ≤ 1000 ∧ |cy| ≤ 1000 ∧ |cz| ≤ 1000) :
    ∃ ahead towards corner pixel0, w.mul Fixed.one = some ahead ∧ pos.sub ahead = some towards ∧
      towards.sub halfway = some corner ∧ corner.add centre = some pixel0 ∧
      pixel0.Has (px - wx - hx + cx) (py - hy + cy) (pz - wz - hz + cz) := by
  simp only [abs_le] at inWorld bw bh bc
  obtain ⟨ahead, hahead, aheadHas⟩ := Vec3.mul_of_fits (k := 256) (s := Fixed.one) hw rfl
    (fits_of_range (by omega) (by omega)) (by decide) (fits_of_range (by omega) (by omega))
  simp only [Int.mul_ediv_cancel _ (show (256 : Int) ≠ 0 by decide)] at aheadHas
  obtain ⟨towards, htowards, towardsHas⟩ := Vec3.sub_of_fits hpos aheadHas
    (fits_of_range (by omega) (by omega)) (fits_of_range (by omega) (by omega))
    (fits_of_range (by omega) (by omega))
  obtain ⟨corner, hcorner, cornerHas⟩ := Vec3.sub_of_fits towardsHas hhalfway
    (fits_of_range (by omega) (by omega)) (fits_of_range (by omega) (by omega))
    (fits_of_range (by omega) (by omega))
  obtain ⟨pixel0, hpixel0, pixel0Has⟩ := Vec3.add_of_fits cornerHas hcentre
    (fits_of_range (by omega) (by omega)) (fits_of_range (by omega) (by omega))
    (fits_of_range (by omega) (by omega))
  rw [sub_zero] at pixel0Has
  exact ⟨ahead, towards, corner, pixel0, hahead, htowards, hcorner, hpixel0, pixel0Has⟩

theorem Camera.init_level {i : CameraIn} (level : i.Level) :
    ∃ camera, Camera.init FrameConfig.standard i = some camera ∧
      ∃ cx cy cz a b, Framed camera cx cy cz a b := by
  obtain ⟨posX, posY, posZ, horizontal, lower, upper⟩ := level
  obtain ⟨w, up, u, wx, wz, ux, uz, hw, hup, hu, basis⟩ :=
    levelBasis_of_heading horizontal lower upper
  have shortWX := basis.shortX
  have shortWZ := basis.shortZ
  have shortUX := basis.unit.shortX
  have shortUZ := basis.unit.shortZ
  obtain ⟨vl, vu⟩ := basis.upright
  obtain ⟨v, hv, crossHas⟩ := Vec3.cross_of_small basis.w basis.u
    ⟨shortWX.trans (by norm_num), by norm_num, shortWZ.trans (by norm_num)⟩
    ⟨shortUX.trans (by norm_num), by norm_num, shortUZ.trans (by norm_num)⟩
  generalize wz * ux / 256 - wx * uz / 256 = vy at vl vu crossHas
  have vHas : v.Has 0 vy 0 := ⟨by rw [crossHas.x]; omega, crossHas.y, by rw [crossHas.z]; omega⟩
  obtain ⟨down, hdown, downHas⟩ := Vec3.neg_of_fits vHas (by decide)
    (fits_of_range (by omega) (by omega)) (by decide)
  rw [neg_zero] at downHas
  obtain ⟨viewportU, hviewportU, viewportUHas, wideX, wideZ⟩ := horizontal_mul (k := 640)
    (s := FrameConfig.standard.VIEWPORT_WIDTH) basis.u rfl (by decide) shortUX shortUZ
  obtain ⟨deltaU, hdeltaU, deltaUHas, narrowX, narrowZ⟩ := horizontal_mul (k := 4)
    (s := FrameConfig.standard.PIXEL_WIDTH) basis.u rfl (by decide) shortUX shortUZ
  obtain ⟨viewportV, hviewportV, viewportVHas⟩ := Vec3.mul_of_fits (k := 512)
    (s := FrameConfig.standard.VIEWPORT_HEIGHT) downHas rfl (by decide)
    (fits_of_range (by omega) (by omega)) (by decide)
  obtain ⟨deltaV, hdeltaV, deltaVHas⟩ := Vec3.mul_of_fits (k := 4)
    (s := FrameConfig.standard.PIXEL_HEIGHT) downHas rfl (by decide)
    (fits_of_range (by omega) (by omega)) (by decide)
  simp only [Int.zero_mul, Int.zero_ediv] at viewportVHas deltaVHas
  obtain ⟨viewport, halfway, hviewport, hhalfway, halfwayHas⟩ := half_of_parts viewportUHas
    viewportVHas (wideX.trans (by norm_num)) (abs_le.mpr (by omega)) (wideZ.trans (by norm_num))
  obtain ⟨delta, centre, hdelta, hcentre, centreHas⟩ := half_of_parts deltaUHas deltaVHas
    (narrowX.trans (by norm_num)) (abs_le.mpr (by omega)) (narrowZ.trans (by norm_num))
  have halved {c : Int} (h : |c| ≤ 640) : |c * 128 / 256| ≤ 1000 := by
    obtain ⟨hl, hu⟩ := abs_le.mp h
    exact abs_le.mpr (by omega)
  obtain ⟨ahead, towards, corner, pixel0, hahead, htowards, hcorner, hpixel0, pixel0Has⟩ :=
    pixel0_of_basis ⟨rfl, rfl, rfl⟩ ⟨posX, posY, posZ⟩ basis.w ⟨shortWX, shortWZ⟩ halfwayHas
      ⟨halved wideX, abs_le.mpr (by omega), halved wideZ⟩ centreHas
      ⟨halved narrowX, abs_le.mpr (by omega), halved narrowZ⟩
  refine ⟨⟨i.cameraPosIn, pixel0, deltaU, deltaV⟩, ?_, firstPixel wx ux (ux * 4 / 256), vy - 2,
    firstPixel wz uz (uz * 4 / 256), ux * 4 / 256, uz * 4 / 256, ?_⟩
  · unfold Camera.init
    exact bind_some hw (bind_some hup (bind_some hu (bind_some hv (bind_some hviewportU
      (bind_some hdown (bind_some hviewportV (bind_some hdeltaU (bind_some hdown (bind_some hdeltaV
        (bind_some hahead (bind_some htowards (bind_some hviewport (bind_some hhalfway
          (bind_some hcorner (bind_some hdelta (bind_some hcentre (bind_some hpixel0
            rfl)))))))))))))))))
  · have roundedX := basis.roundedX _ rfl
    have roundedZ := basis.roundedZ _ rfl
    refine ⟨⟨posX, posY, posZ⟩, ?_, deltaUHas, ?_, by omega, fun x hx hx' => ⟨?_, ?_⟩,
      row_far roundedX roundedZ basis.unit⟩
    · obtain ⟨ex, ey, ez⟩ := pixel0Has
      unfold firstPixel
      dsimp only
      exact ⟨by rw [ex]; ring, by rw [ey]; omega, by rw [ez]; ring⟩
    · exact ⟨deltaVHas.x, deltaVHas.y.trans (by omega), deltaVHas.z⟩
    · exact row_near roundedX shortUX shortWX hx hx'
    · exact row_near roundedZ shortUZ shortWZ hx hx'

/-- A direction whose horizontal part is neither too short nor too long. -/
structure Aimed (d : Vec3) : Prop where
  x : |d.x.val| ≤ 660
  y : |d.y.val| ≤ 300
  z : |d.z.val| ≤ 660
  far : 14080 ≤ d.x.val * d.x.val + d.z.val * d.z.val

theorem ofI16_wrap {n : Nat} (h : n < 1000) :
    ∃ r, Fixed.ofI16 (Signed.wrap (n : Int)) = some r ∧ r.val = n * 256 := by
  have hval : (Signed.wrap (n : Int) : I16).val = n :=
    Signed.wrap_of_range (by decide) (by norm_num) (by norm_num; omega)
  obtain ⟨r, hr, vr⟩ := Fixed.ofI16_of_fits (p := Signed.wrap (n : Int)) (by
    rw [hval]
    unfold Fits
    omega)
  exact ⟨r, hr, by rw [vr, hval]⟩

/-- The ray of every pixel up to the one past the last, which is assigned at the end of a
frame. -/
theorem Framed.rayDirection {camera : Camera} {cx cy cz a b : Int}
    (h : Framed camera cx cy cz a b) {pixel : Nat} (hp : pixel ≤ 20480) :
    ∃ d, camera.rayDirection FrameConfig.standard pixel = some d ∧ Aimed d := by
  obtain ⟨⟨posX, posY, posZ⟩, first, deltaU, deltaV, ⟨hl, hu⟩, near, far⟩ := h
  obtain ⟨pxl, pxu⟩ := abs_le.mp posX
  obtain ⟨pyl, pyu⟩ := abs_le.mp posY
  obtain ⟨pzl, pzu⟩ := abs_le.mp posZ
  obtain ⟨x, hx⟩ : ∃ x, x = pixel % 160 := ⟨_, rfl⟩
  obtain ⟨y, hy⟩ : ∃ y, y = pixel / 160 := ⟨_, rfl⟩
  obtain ⟨nearX, nearZ⟩ := near x (by omega) (by omega)
  obtain ⟨nxl, nxu⟩ := abs_le.mp nearX
  obtain ⟨nzl, nzu⟩ := abs_le.mp nearZ
  obtain ⟨zeroX, zeroZ⟩ := near 0 (by norm_num) (by norm_num)
  rw [mul_zero, add_zero] at zeroX zeroZ
  obtain ⟨zxl, zxu⟩ := abs_le.mp zeroX
  obtain ⟨zzl, zzu⟩ := abs_le.mp zeroZ
  have farX := far x
  obtain ⟨fx, hfx, vfx⟩ := ofI16_wrap (n := x) (by omega)
  obtain ⟨fy, hfy, vfy⟩ := ofI16_wrap (n := y) (by omega)
  have step (c : Int) : c * ((x : Int) * 256) / 256 = c * x := by
    rw [← mul_assoc]
    exact Int.mul_ediv_cancel _ (by decide)
  obtain ⟨along, halong, alongHas⟩ := Vec3.mul_of_fits deltaU vfx
    (by rw [step]; exact fits_of_range (by omega) (by omega)) (by rw [step]; exact fits_of_range (by omega) (by omega))
    (by rw [step]; exact fits_of_range (by omega) (by omega))
  simp only [step, Int.zero_mul] at alongHas
  obtain ⟨row, hrow, rowHas⟩ := Vec3.add_of_fits first alongHas
    (fits_of_range (by omega) (by omega)) (fits_of_range (by omega) (by omega)) (fits_of_range (by omega) (by omega))
  obtain ⟨below, hbelow, belowHas⟩ := Vec3.mul_of_fits deltaV vfy
    (fits_of_range (by omega) (by omega)) (fits_of_range (by omega) (by omega)) (fits_of_range (by omega) (by omega))
  obtain ⟨loc, hloc, locHas⟩ := Vec3.add_of_fits rowHas belowHas
    (fits_of_range (by omega) (by omega)) (fits_of_range (by omega) (by omega)) (fits_of_range (by omega) (by omega))
  have posHas : camera.cameraPos.Has camera.cameraPos.x.val camera.cameraPos.y.val
      camera.cameraPos.z.val := ⟨rfl, rfl, rfl⟩
  obtain ⟨d, hd, dHas⟩ := Vec3.sub_of_fits locHas posHas
    (fits_of_range (by omega) (by omega)) (fits_of_range (by omega) (by omega)) (fits_of_range (by omega) (by omega))
  refine ⟨d, ?_, ?_⟩
  · unfold Camera.rayDirection
    rw [show pixel % FrameConfig.standard.FRAME_WIDTH = x from hx.symm,
      show pixel / FrameConfig.standard.FRAME_WIDTH = y from hy.symm]
    exact bind_some hfx (bind_some hfy (bind_some halong (bind_some hrow (bind_some hbelow
      (bind_some hloc hd)))))
  · obtain ⟨ex, ey, ez⟩ := dHas
    have hdx : d.x.val = cx + a * x := by omega
    have hdz : d.z.val = cz + b * x := by omega
    exact ⟨by rw [hdx]; exact nearX, abs_le.mpr (by omega), by rw [hdz]; exact nearZ, by
      rw [hdx, hdz]
      exact farX⟩

end FpgaCraft.Software
