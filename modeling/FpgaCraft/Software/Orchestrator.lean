import FpgaCraft.Software.Vtu

/-! The software orchestrator (`orchestrator.rs`), which renders frame after frame with
its traversal units, and the update loop of `main.rs` on top of it. -/
namespace FpgaCraft.Software
open Library

structure Rgb565 where
  bits : UInt16
deriving DecidableEq, Repr

namespace Rgb565

def new (r g b : UInt8) : Rgb565 :=
  ⟨((r.toUInt16 >>> 3) <<< 11) ||| ((g.toUInt16 >>> 2) <<< 5) ||| (b.toUInt16 >>> 3)⟩

def r (self : Rgb565) : UInt8 := (self.bits >>> 11).toUInt8 <<< 3
def g (self : Rgb565) : UInt8 := ((self.bits >>> 5).toUInt8 &&& 0b111111) <<< 2
def b (self : Rgb565) : UInt8 := (self.bits &&& 0b11111).toUInt8 <<< 3

/-- A channel times a factor; `as u8` keeps the low byte. -/
def scale (channel : UInt8) (rhs : Fixed) : Option UInt8 := do
  let product ← Fixed.mul (← Fixed.ofI16 (Signed.wrap channel.toNat)) rhs
  pure (UInt8.ofInt product.floor.val)

def mul (self : Rgb565) (rhs : Fixed) : Option Rgb565 := do
  pure (new (← scale self.r rhs) (← scale self.g rhs) (← scale self.b rhs))

end Rgb565

structure FrameConfig where
  FRAME_WIDTH : Nat
  FRAME_HEIGHT : Nat
  VIEWPORT_WIDTH : Fixed
  VIEWPORT_HEIGHT : Fixed
  /-- The viewport divided by the frame, in both directions. -/
  PIXEL_WIDTH : Fixed
  PIXEL_HEIGHT : Fixed
  width_pos : 0 < FRAME_WIDTH
  height_pos : 0 < FRAME_HEIGHT

namespace FrameConfig

def NUM_PIXELS (cfg : FrameConfig) : Nat := cfg.FRAME_WIDTH * cfg.FRAME_HEIGHT

theorem numPixels_pos (cfg : FrameConfig) : 0 < cfg.NUM_PIXELS :=
  Nat.mul_pos cfg.width_pos cfg.height_pos

def standard : FrameConfig where
  FRAME_WIDTH := 160
  FRAME_HEIGHT := 128
  VIEWPORT_WIDTH := ⟨640, by decide, by decide⟩
  VIEWPORT_HEIGHT := ⟨512, by decide, by decide⟩
  PIXEL_WIDTH := ⟨4, by decide, by decide⟩
  PIXEL_HEIGHT := ⟨4, by decide, by decide⟩
  width_pos := by decide
  height_pos := by decide

example : standard.NUM_PIXELS = 20480 := rfl

end FrameConfig

structure CameraIn where
  cameraPosIn : Vec3
  cameraHeadingIn : Vec3
deriving DecidableEq

structure Camera where
  cameraPos : Vec3
  pixel0Loc : Vec3
  pixelDeltaU : Vec3
  pixelDeltaV : Vec3
deriving DecidableEq

namespace Camera

def init (cfg : FrameConfig) (i : CameraIn) : Option Camera := do
  let w ← i.cameraHeadingIn.normalized
  let u ← (← Vec3.UP.cross w).normalized
  let v ← w.cross u
  let viewportU ← u.mul cfg.VIEWPORT_WIDTH
  let viewportV ← (← v.neg).mul cfg.VIEWPORT_HEIGHT
  let pixelDeltaU ← u.mul cfg.PIXEL_WIDTH
  let pixelDeltaV ← (← v.neg).mul cfg.PIXEL_HEIGHT
  let half : Fixed := ⟨128, by decide, by decide⟩
  let towards ← i.cameraPosIn.sub (← w.mul Fixed.one)
  let viewportCorner ← towards.sub (← (← viewportU.add viewportV).mul half)
  let pixel0Loc ← viewportCorner.add (← (← pixelDeltaU.add pixelDeltaV).mul half)
  pure ⟨i.cameraPosIn, pixel0Loc, pixelDeltaU, pixelDeltaV⟩

def rayDirection (cfg : FrameConfig) (self : Camera) (pixel : Nat) : Option Vec3 := do
  let x ← Fixed.ofI16 (Signed.wrap (pixel % cfg.FRAME_WIDTH : Nat))
  let y ← Fixed.ofI16 (Signed.wrap (pixel / cfg.FRAME_WIDTH : Nat))
  let row ← self.pixel0Loc.add (← self.pixelDeltaU.mul x)
  let pixelLoc ← row.add (← self.pixelDeltaV.mul y)
  pixelLoc.sub self.cameraPos

end Camera

def Block.colour : Block → Rgb565
  | .air => Rgb565.new 174 200 235
  | .water => Rgb565.new 52 67 138
  | .grass => Rgb565.new 90 133 77
  | .dirt => Rgb565.new 133 96 77
  | .oakLog => Rgb565.new 91 58 42
  | .oakLeaves => Rgb565.new 129 165 118
  | _ => Rgb565.new 82 70 84

def shade (voxel : Block) (normal : Vec3) : Option Rgb565 := do
  let sun : Vec3 := ⟨Fixed.one, ⟨-1280, by decide, by decide⟩, ⟨512, by decide, by decide⟩⟩
  let diffuse ← Fixed.mul ⟨51, by decide, by decide⟩ (← normal.dot (← sun.normalized))
  let light ← Fixed.add ⟨102, by decide, by decide⟩ diffuse
  if voxel ≠ .air then voxel.colour.mul light else pure voxel.colour

structure Orchestrator (cfg : FrameConfig) (P S : Nat) where
  frameBufferOut : Fin cfg.NUM_PIXELS → Rgb565
  frameDoneOut : Bool
  camera : Camera
  cluster : Cluster P S
  nextPixel : Nat

/-- What an edge does to the frame: begin the next one, or draw a pixel of this one. -/
inductive FrameEvent (cfg : FrameConfig) where
  | none
  | begin (i : CameraIn)
  | pixel (index : Fin cfg.NUM_PIXELS) (colour : Rgb565)

namespace Orchestrator
variable {cfg : FrameConfig} {P S : Nat} [NeZero S]

def init : Orchestrator cfg P S where
  frameBufferOut := fun _ => ⟨0⟩
  frameDoneOut := false
  camera := ⟨0, 0, 0, 0⟩
  cluster := Cluster.init
  nextPixel := 0

def assign (vtu : Fin P → VoxelTraversalUnit) (i : Fin P) (pixel : Nat) (inputs : VtuIn) :
    Fin P → VoxelTraversalUnit :=
  Function.update vtu i ((vtu i).assign pixel inputs)

theorem currentPixel_assign_le {vtu : Fin P → VoxelTraversalUnit} {pixel n : Nat} (hp : pixel ≤ n)
    (h : ∀ j, (vtu j).currentPixel ≤ n) (i : Fin P) (inputs : VtuIn) (j : Fin P) :
    (assign vtu i pixel inputs j).currentPixel ≤ n := by
  unfold assign
  by_cases hj : j = i
  · rw [hj, Function.update_self]
    exact hp
  · rw [Function.update_of_ne hj]
    exact h j

def reset (self : Orchestrator cfg P S) : Orchestrator cfg P S :=
  { self with
    frameBufferOut := fun _ => ⟨0⟩
    frameDoneOut := false
    camera := ⟨0, 0, 0, 0⟩
    nextPixel := cfg.NUM_PIXELS }

def beginFrame (i : CameraIn) (self : Orchestrator cfg P S) :
    Option (Orchestrator cfg P S × FrameEvent cfg) := do
  let camera ← Camera.init cfg i
  let direction ← camera.pixel0Loc.sub i.cameraPosIn
  let vtu := fun k => (self.cluster.vtu k).assign 0 ⟨i.cameraPosIn, direction, true⟩
  pure ({ self with
    nextPixel := 0
    camera := camera
    cluster := { self.cluster with vtu := vtu } }, .begin i)

/-- Draw the pixel of the first unit that is done and assign it the next one. Can only
service one unit at a time. -/
def drawPixel (self : Orchestrator cfg P S) : Option (Orchestrator cfg P S × FrameEvent cfg) :=
  let vtu := fun k => { self.cluster.vtu k with rayInitIn := false }
  match (List.finRange P).find? fun k => (vtu k).validOut with
  | none => some ({ self with cluster := { self.cluster with vtu := vtu } }, .none)
  | some k =>
    if h : (vtu k).currentPixel < cfg.NUM_PIXELS then do
      let colour ← shade (vtu k).voxelOut (vtu k).normalOut
      let nextPixel := self.nextPixel + 1
      let direction ← self.camera.rayDirection cfg nextPixel
      let ray : VtuIn := ⟨self.camera.cameraPos, direction, true⟩
      pure ({ self with
        frameBufferOut := Function.update self.frameBufferOut ⟨(vtu k).currentPixel, h⟩ colour
        nextPixel := nextPixel
        cluster := { self.cluster with vtu := assign vtu k nextPixel ray } },
        .pixel ⟨(vtu k).currentPixel, h⟩ colour)
    -- The index of the frame buffer is out of bounds
    else none

def risingClkEdge (ram : MockCache) (profile : Profile) (reset : Bool) (i : CameraIn)
    (self : Orchestrator cfg P S) : Option (Orchestrator cfg P S × FrameEvent cfg) := do
  let cluster ← self.cluster.risingClkEdge ram profile reset
  let self := { self with cluster := cluster }
  if reset then pure (self.reset, .none)
  else
    let self := { self with frameDoneOut := self.nextPixel == cfg.NUM_PIXELS - 1 }
    if self.nextPixel = cfg.NUM_PIXELS then self.beginFrame i else self.drawPixel

theorem risingClkEdge_begin {o o' : Orchestrator cfg P S} {ram : MockCache} {profile : Profile}
    {i : CameraIn} {e : FrameEvent cfg} (hnext : o.nextPixel = cfg.NUM_PIXELS)
    (h : o.risingClkEdge ram profile false i = some (o', e)) :
    ∃ c camera direction, o.cluster.risingClkEdge ram profile false = some c ∧
      Camera.init cfg i = some camera ∧ camera.pixel0Loc.sub i.cameraPosIn = some direction ∧
      e = .begin i ∧ o' = { o with
        frameDoneOut := cfg.NUM_PIXELS == cfg.NUM_PIXELS - 1
        nextPixel := 0
        camera := camera
        cluster := { c with
          vtu := fun k => (c.vtu k).assign 0 ⟨i.cameraPosIn, direction, true⟩ } } := by
  obtain ⟨c, hcluster, h⟩ := Option.bind_eq_some_iff.mp h
  simp only [Bool.false_eq_true, if_false, hnext, if_true, beginFrame] at h
  obtain ⟨camera, hcamera, h⟩ := Option.bind_eq_some_iff.mp h
  obtain ⟨direction, hdirection, h⟩ := Option.bind_eq_some_iff.mp h
  obtain ⟨rfl, rfl⟩ := Prod.mk.inj (Option.some.inj h)
  exact ⟨c, camera, direction, hcluster, hcamera, hdirection, rfl, rfl⟩

/-- The other edges: no unit is done, or the first one that is gets its pixel drawn. -/
theorem risingClkEdge_render {o o' : Orchestrator cfg P S} {ram : MockCache} {profile : Profile}
    {i : CameraIn} {e : FrameEvent cfg} (hnext : o.nextPixel ≠ cfg.NUM_PIXELS)
    (h : o.risingClkEdge ram profile false i = some (o', e)) :
    ∃ c, o.cluster.risingClkEdge ram profile false = some c ∧
      ((∀ k, (c.vtu k).validOut = false) ∧ e = .none ∧ o' = { o with
          frameDoneOut := o.nextPixel == cfg.NUM_PIXELS - 1
          cluster := { c with vtu := fun k => { c.vtu k with rayInitIn := false } } } ∨
        ∃ (k : Fin P) (inFrame : (c.vtu k).currentPixel < cfg.NUM_PIXELS) (colour : Rgb565)
          (direction : Vec3),
          ((List.finRange P).find? fun k => (c.vtu k).validOut) = some k ∧
          shade (c.vtu k).voxelOut (c.vtu k).normalOut = some colour ∧
          o.camera.rayDirection cfg (o.nextPixel + 1) = some direction ∧
          e = .pixel ⟨(c.vtu k).currentPixel, inFrame⟩ colour ∧ o' = { o with
            frameBufferOut :=
              Function.update o.frameBufferOut ⟨(c.vtu k).currentPixel, inFrame⟩ colour
            frameDoneOut := o.nextPixel == cfg.NUM_PIXELS - 1
            nextPixel := o.nextPixel + 1
            cluster := { c with
              vtu := assign (fun k => { c.vtu k with rayInitIn := false }) k (o.nextPixel + 1)
                ⟨o.camera.cameraPos, direction, true⟩ } }) := by
  obtain ⟨c, hcluster, h⟩ := Option.bind_eq_some_iff.mp h
  refine ⟨c, hcluster, ?_⟩
  simp only [Bool.false_eq_true, if_false, hnext, drawPixel] at h
  split at h
  · rename_i hnone
    obtain ⟨rfl, rfl⟩ := Prod.mk.inj (Option.some.inj h)
    exact .inl ⟨fun k => by simpa using List.find?_eq_none.mp hnone k (List.mem_finRange k), rfl, rfl⟩
  · rename_i k hk
    split at h
    · rename_i inFrame
      obtain ⟨colour, hcolour, h⟩ := Option.bind_eq_some_iff.mp h
      obtain ⟨direction, hdirection, h⟩ := Option.bind_eq_some_iff.mp h
      obtain ⟨rfl, rfl⟩ := Prod.mk.inj (Option.some.inj h)
      exact .inr ⟨k, inFrame, colour, direction, hk, hcolour, hdirection, rfl, rfl⟩
    · cases h

def tick (ram : MockCache) (profile : Profile) (i : CameraIn) (self : Orchestrator cfg P S) :
    Option (Orchestrator cfg P S) := do
  let (next, _) ← self.risingClkEdge ram profile false i
  pure next

theorem tick_eq_some {o o' : Orchestrator cfg P S} {ram : MockCache} {profile : Profile}
    {i : CameraIn} :
    o.tick ram profile i = some o' ↔ ∃ e, o.risingClkEdge ram profile false i = some (o', e) := by
  simp [tick, Option.bind_eq_some_iff]

/-- One call of `update`: its two loops, of at most `fuel` edges each. -/
def update (ram : MockCache) (profile : Profile) (fuel : Nat) (i : CameraIn)
    (self : Orchestrator cfg P S) : Option (Orchestrator cfg P S) := do
  let done ← loop (fun o => !o.frameDoneOut) (tick ram profile i) fuel self
  loop (fun o => o.frameDoneOut) (tick ram profile i) fuel done

end Orchestrator
end FpgaCraft.Software
