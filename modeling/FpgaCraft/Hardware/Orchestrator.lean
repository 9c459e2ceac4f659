import FpgaCraft.Hardware.Traversal

/-! The hardware orchestrator with one traversal unit (`orchestrator.sv`). -/
namespace FpgaCraft.Hardware
open Library

/-- A traversal unit with its memory, as the orchestrator uses it: some cycles after a reset
with a ray it shows what the ray hits, until the next reset. -/
structure TraversalUnit where
  State : Type
  step : CasterIn → State → State
  hit : State → BlockType
  hitValid : State → Bool
  cast : Vec3 → Vec3 → BlockType
  latency : Vec3 → Vec3 → Nat
  hitValid_launch : ∀ s i k, i.resets = true →
    hitValid (trace step (launch i) s (k + 1)) = decide (latency i.rayOrigin i.rayDirection ≤ k)
  hit_launch : ∀ s i k, i.resets = true → latency i.rayOrigin i.rayDirection ≤ k →
    hit (trace step (launch i) s (k + 1)) = cast i.rayOrigin i.rayDirection

def casterUnit (rom : Rom) : TraversalUnit where
  State := Caster
  step := Caster.risingClkEdge rom
  hit c := c.vtu.hit
  hitValid c := c.vtu.hitValid
  cast origin direction := ((raySetup origin direction).cast rom).1
  latency origin direction := (raySetup origin direction).latency rom
  hitValid_launch s _ k hrst := launch_hitValid s rom hrst k
  hit_launch s _ _ hrst hk := congrArg Prod.fst (launch_finished s hrst hk).hit

inductive OrchestratorState where
  | init
  | rendering
  | idle
deriving DecidableEq, Repr

structure VtuSlot where
  rst : Bool
  uninit : Bool
  rayOrigin : Vec3
  rayDirection : Vec3
  writeAddr : BitVec 16
deriving DecidableEq

structure Orchestrator (U : TraversalUnit) where
  unit : U.State
  vtu : VtuSlot
  state : OrchestratorState
  initTimer : BitVec 6
  cameraPos : Vec3
  w : Vec3
  u : Vec3
  v : Vec3
  viewportU : Vec3
  viewportV : Vec3
  pixelDu : Vec3
  pixelDv : Vec3
  pixel0Loc : Vec3
  nextPixelAddr : BitVec 12
  frameDone : Bool
  normalizeIn : Vec3
  normalize : Normalize

def Orchestrator.powerUp (rom : Rom) : Orchestrator (casterUnit rom) where
  unit := Caster.powerUp
  vtu := ⟨false, false, 0, 0, 0⟩
  state := .init
  initTimer := 0
  cameraPos := 0
  w := 0
  u := 0
  v := 0
  viewportU := 0
  viewportV := 0
  pixelDu := 0
  pixelDv := 0
  pixel0Loc := 0
  nextPixelAddr := 0
  frameDone := false
  normalizeIn := 0
  normalize := ⟨0, 0, 0, 0, 0, ⟨0, 0, 0, 0, 0, 0⟩, 0⟩

structure OrchestratorIn where
  rst : Bool
  cameraPosition : Vec3
  cameraHeading : Vec3

def sbufColor (hit : BlockType) : BitVec 16 :=
  if hit = BLOCK_AIR then 0xAE5D
  else if hit = BLOCK_WATER then 0x3211
  else if hit = BLOCK_GRASS then 0x5C29
  else if hit = BLOCK_DIRT then 0x8309
  else if hit = BLOCK_OAK_LOG then 0x59C5
  else if hit = BLOCK_OAK_LEAVES then 0x852E
  else 0x522A

namespace Orchestrator
variable {U : TraversalUnit}

def vtuValid (self : Orchestrator U) : Bool := U.hitValid self.unit && !self.vtu.rst

def sbufWriteEnable (i : OrchestratorIn) (self : Orchestrator U) : Bool :=
  !i.rst && decide (self.state = .rendering) && self.vtuValid

def sbufAddr (self : Orchestrator U) : BitVec 11 :=
  if self.vtuValid then self.vtu.writeAddr.setWidth 11 else 0

def sbufData (self : Orchestrator U) : BitVec 16 :=
  if self.vtuValid then sbufColor (U.hit self.unit) else 0

def sbufWrite (i : OrchestratorIn) (self : Orchestrator U) : Option (BitVec 11 × BitVec 16) :=
  if self.sbufWriteEnable i then some (self.sbufAddr, self.sbufData) else none

def nextPixelX (addr : BitVec 12) : Fixed :=
  ((0 : BitVec 1) ++ addr.extractLsb' 0 6 ++ (0 : BitVec D)).setWidth B

def nextPixelY (addr : BitVec 12) : Fixed :=
  ((0 : BitVec 1) ++ addr.extractLsb' 6 5 ++ (0 : BitVec D)).setWidth B

def pixelLoc (self : Orchestrator U) : Vec3 :=
  vadd self.pixel0Loc (vadd (vmul self.pixelDu (nextPixelX self.nextPixelAddr))
    (vmul self.pixelDv (nextPixelY self.nextPixelAddr)))

def arbitrate (i : OrchestratorIn) (self : Orchestrator U) : VtuSlot :=
  if i.rst then { self.vtu with uninit := true }
  else if self.state = .rendering then
    if self.vtuValid && !self.vtu.rst || self.vtu.uninit then
      ⟨true, false, self.cameraPos, vsub self.pixelLoc self.cameraPos,
        self.nextPixelAddr.setWidth 16⟩
    else { self.vtu with rst := false }
  else self.vtu

def reset (i : OrchestratorIn) (self : Orchestrator U) : Orchestrator U :=
  { self with
    frameDone := false
    state := .init
    initTimer := 0
    cameraPos := i.cameraPosition
    normalizeIn := i.cameraHeading
    nextPixelAddr := 0 }

def cross (a b : Vec3) : Vec3 :=
  ⟨fsub (fmul a.y b.z) (fmul a.z b.y), fsub (fmul a.z b.x) (fmul a.x b.z),
   fsub (fmul a.x b.y) (fmul a.y b.x)⟩

def initEdge (self : Orchestrator U) : Orchestrator U :=
  let normalizeOut := self.normalize.out
  { self with
    initTimer := self.initTimer + 1
    -- Cycle #6: w is normalized, start normalizing u
    w := if self.initTimer = 6 then normalizeOut else self.w
    normalizeIn :=
      if self.initTimer = 6 then ⟨normalizeOut.z, 0, -normalizeOut.x⟩ else self.normalizeIn
    u := if self.initTimer = 13 then normalizeOut else self.u
    v := if self.initTimer = 14 then cross self.w self.u else self.v
    viewportU := if self.initTimer = 15 then vmul self.u 0x400 else self.viewportU
    viewportV := if self.initTimer = 15 then vmul (vneg self.v) 0x200 else self.viewportV
    pixelDu :=
      if self.initTimer = 15 then vmul self.u ((0x400 : Fixed).sshiftRight 6) else self.pixelDu
    pixelDv :=
      if self.initTimer = 15 then vmul (vneg self.v) ((0x200 : Fixed).sshiftRight 5)
      else self.pixelDv
    pixel0Loc :=
      if self.initTimer = 16 then
        vadd (vsub (vsub self.cameraPos self.w) (vdiv2 (vadd self.viewportU self.viewportV)))
          (vdiv2 (vadd self.pixelDu self.pixelDv))
      else self.pixel0Loc
    state := if self.initTimer = 16 then .rendering else self.state }

def renderingEdge (self : Orchestrator U) : Orchestrator U :=
  { self with
    state := if self.nextPixelAddr = FRAME_AREA then .idle else self.state
    frameDone := if self.nextPixelAddr = FRAME_AREA then true else self.frameDone
    nextPixelAddr := if self.vtuValid then self.nextPixelAddr + 1 else self.nextPixelAddr }

def control (i : OrchestratorIn) (self : Orchestrator U) : Orchestrator U :=
  if i.rst then self.reset i
  else match self.state with
    | .init => self.initEdge
    | .rendering => self.renderingEdge
    | .idle => self

def unitIn (i : OrchestratorIn) (self : Orchestrator U) : CasterIn :=
  ⟨i.rst, self.vtu.rst, self.vtu.rayOrigin, self.vtu.rayDirection⟩

def risingClkEdge (i : OrchestratorIn) (self : Orchestrator U) : Orchestrator U :=
  { self.control i with
    unit := U.step (self.unitIn i) self.unit
    vtu := self.arbitrate i
    normalize := self.normalize.risingClkEdge self.normalizeIn }

end Orchestrator
end FpgaCraft.Hardware
